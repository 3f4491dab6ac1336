import AgentBridge.Proofs.Numerals
import AgentBridge.Proofs.Quoting
import AgentBridge.Proofs.Reading

/-
  AgentBridge.Proofs.Leading — texts that lead the reader from state to state.

  A text leads the reader from one state to another if its lexemes do, wherever it stands in
  front of a delimiter (`Leads`). Such texts are put together from lexemes and white space. One
  that leads from the start to a value is read as this value (`Leads.read`); one that leads to
  where a value is expected exceeds a limit if what stands behind it does (`Leads.exceeds`).
-/

namespace AgentBridge.Json

/-! ## From state to state -/

/-- In front of a delimiter, the lexemes of a text lead from one state of the reader to another. -/
def Leads (text : List Char) (s s' : State) : Prop :=
  ∀ pos rest, Ends rest → ∃ ls,
    lexemesFrom 0 pos (text ++ rest) = ls ++ lexemesFrom 0 (pos + text.length) rest ∧ s.feed ls = .ok s'

/-- White space has no lexemes. -/
theorem lexemesFrom_space {w : List Char} (hw : ∀ c ∈ w, isSpace c = true) (pos : Nat) (rest : List Char) :
    lexemesFrom 0 pos (w ++ rest) = lexemesFrom 0 (pos + w.length) rest := by
  induction w generalizing pos with
  | nil => rfl
  | cons c w ih =>
    have hrest : ∀ d ∈ w, isSpace d = true := fun d hd => hw d (List.mem_cons_of_mem c hd)
    rw [List.cons_append, lexemesFrom, if_pos (hw c List.mem_cons_self), ih hrest, List.length_cons,
      Nat.add_right_comm, Nat.add_assoc]

theorem ends_cons {c : Char} (hc : isDelimiter c = true) (r : List Char) : Ends (c :: r) := by
  simpa [Ends] using hc

theorem ends_append {a b : List Char} (ha : Ends a) (hb : Ends b) : Ends (a ++ b) := by
  cases a with
  | nil => exact hb
  | cons c a => exact ends_cons (ha c rfl) _

namespace Leads

variable {a b : List Char} {s s' s'' : State}

theorem nil (s : State) : Leads [] s s := fun _ _ _ => ⟨[], rfl, rfl⟩

theorem append (ha : Leads a s s') (hb : Leads b s' s'') (he : Ends b) : Leads (a ++ b) s s'' := by
  intro pos rest hr
  obtain ⟨la, hla, hfa⟩ := ha pos (b ++ rest) (ends_append he hr)
  obtain ⟨lb, hlb, hfb⟩ := hb (pos + a.length) rest hr
  refine ⟨la ++ lb, ?_, ?_⟩
  · rw [List.append_assoc, hla, hlb, List.append_assoc, List.length_append, Nat.add_assoc]
  · rw [State.feed_append, hfa]
    exact hfb

/-- One lexeme and what follows it. -/
theorem of_lexeme {t : Token} {text : List Char} (hstep : State.Step s t s') (hb : Leads b s' s'')
    (hl : ∀ pos rest, Ends rest → lexemesFrom 0 pos (text ++ (b ++ rest)) =
      ⟨t, pos⟩ :: lexemesFrom 0 (pos + text.length) (b ++ rest)) : Leads (text ++ b) s s'' := by
  intro pos rest hr
  obtain ⟨lb, hlb, hfb⟩ := hb (pos + text.length) rest hr
  refine ⟨⟨t, pos⟩ :: lb, ?_, bind_eq_ok.mpr ⟨s', State.take_of_step hstep, hfb⟩⟩
  rw [List.append_assoc, hl pos rest hr, hlb, List.cons_append, List.length_append, Nat.add_assoc]

theorem mark {c : Char} {t : Token} (hc : punctuation? c = some t) (hstep : State.Step s t s')
    (hb : Leads b s' s'') : Leads (c :: b) s s'' := by
  have hspace : isSpace c = false := by
    unfold punctuation? at hc
    split at hc <;> first | rfl | cases hc
  refine of_lexeme hstep hb (show ∀ pos rest, Ends rest → lexemesFrom 0 pos ([c] ++ (b ++ rest)) = _ from ?_)
  intro pos rest _
  rw [List.singleton_append, lexemesFrom, hspace, hc]
  rfl

theorem space {w : List Char} (hw : ∀ c ∈ w, isSpace c = true) (hb : Leads b s s') : Leads (w ++ b) s s' := by
  intro pos rest hr
  obtain ⟨ls, hls, hf⟩ := hb (pos + w.length) rest hr
  refine ⟨ls, ?_, hf⟩
  rw [List.append_assoc, lexemesFrom_space hw, hls, List.length_append, Nat.add_assoc]

theorem blank (hb : Leads b s s') : Leads (' ' :: b) s s' :=
  space (w := [' ']) (List.forall_mem_singleton.mpr rfl) hb

theorem text {t : Text} (hstep : State.Step s (.text (.ok t.pair)) s') (hb : Leads b s' s'') :
    Leads (writeText t ++ b) s s'' :=
  of_lexeme hstep hb fun _ _ _ => lexemesFrom_writeText t _

theorem scalar {t : List Char} {v : Json} (h : scanScalar t = some (.ok v, t.length))
    (hstep : State.Step s (.scalar (.ok v)) s') : Leads t s s' := by
  intro pos rest hr
  exact ⟨[⟨.scalar (.ok v), pos⟩], lexemesFrom_scalar h hr, bind_eq_ok.mpr ⟨s', State.take_of_step hstep, rfl⟩⟩

/-- A text that leads from the start to a value is read as this value. -/
theorem read {t : List Char} {v : Json} (h : Leads t (.value []) (.done v)) : Json.read t = .ok v := by
  obtain ⟨ls, hls, hfeed⟩ := h 0 [] (by simp [Ends])
  have hlexemes : lexemes t = ls := by simpa [lexemes, lexemesFrom] using hls
  rw [← hlexemes] at hfeed
  refine read_eq_ok_iff.mpr ⟨fun hb => ?_, hfeed⟩
  rw [lexemes_byteOrderMark hb] at hfeed
  cases hfeed

/-- Behind a text that leads to where a value is expected, a lexeme that oversteps a limit exceeds it. -/
theorem exceeds {rest : List Char} {around : List Frame} {x : Lexeme} {after : List Lexeme} {l : Limit}
    (h : Leads a (.value []) s) (hs : s.Expects around) (hr : Ends rest)
    (hx : lexemesFrom 0 a.length rest = x :: after) (ho : State.Oversteps x around l) : Exceeds (a ++ rest) l := by
  obtain ⟨ls, hls, hfeed⟩ := h 0 rest hr
  refine ⟨ls, x, after, s, around, ?_, hfeed, hs, ho⟩
  rw [lexemes, hls, Nat.zero_add, hx]

end Leads

/-! ## Texts that exceed a limit -/

/-- Where a value is expected, too many digits exceed the limit of digits. -/
theorem Leads.exceeds_digits {a ds : List Char} {s : State} {around : List Frame} (h : Leads a (.value []) s)
    (hs : s.Expects around) (hd : Digit.Whole ds) (hn : digitLimit < ds.length) :
    Exceeds (a ++ ' ' :: ds) (.digits ds.length) := by
  have hl : lexemesFrom 0 a.length (' ' :: ds) = [⟨.scalar (.error (.digits ds.length)), a.length + 1⟩] := by
    have hscan : lexemesFrom 0 (a.length + 1) (ds ++ []) = _ :=
      lexemesFrom_scalar (scanScalar_tooLong hd hn) (by simp [Ends])
    rw [List.append_nil] at hscan
    rw [lexemesFrom, if_pos (by decide), hscan, lexemesFrom]
  exact h.exceeds hs (ends_cons (by decide) ds) hl (Or.inl rfl)

/-- As many brackets as there is room for lead to where a value is expected. -/
theorem leads_brackets {s : State} {around : List Frame} (hs : s.Expects around) {n : Nat}
    (hn : around.length + n < nestingLimit) :
    ∃ s' around', Leads (List.replicate (n + 1) '[') s s' ∧ s'.Expects around' ∧
      around'.length = around.length + n + 1 := by
  induction n generalizing s around with
  | zero => exact ⟨_, _, .mark rfl (.openArray hs hn) (.nil _), .first around, rfl⟩
  | succ n ih =>
    obtain ⟨s', around', hleads, hs', hlength⟩ := ih (.first around) (by simp only [List.length_cons]; omega)
    refine ⟨s', around', .mark rfl (.openArray hs (by omega)) hleads, hs', ?_⟩
    rw [hlength, List.length_cons]
    omega

/-- Brackets inside too many others exceed the limit of nesting. -/
theorem exceeds_nesting (rest : List Char) :
    Exceeds (List.replicate nestingLimit '[' ++ '[' :: rest) (.nesting .array) := by
  obtain ⟨s, around, hleads, hs, hlength⟩ :=
    leads_brackets (.value []) (n := nestingLimit - 1) (by decide)
  exact hleads.exceeds hs (ends_cons (by decide) rest) rfl (Or.inr ⟨.array, rfl, by rw [hlength]; decide, rfl⟩)

end AgentBridge.Json
