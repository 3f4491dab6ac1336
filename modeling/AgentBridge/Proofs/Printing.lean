import AgentBridge.Proofs.Numerals
import AgentBridge.Proofs.Outcome
import AgentBridge.Proofs.Quoting

/-
  AgentBridge.Proofs.Printing — what the writer prints.

  Whatever is written consists of the printed characters of ASCII, the blank among them, and of
  the line breaks that the layout asks for (`printedIn_writeAt`). So on one line there is no
  line break, and no other control character either (`printable_writeAt`).
-/

namespace AgentBridge.Json

/-! ## Strings -/

/-- The characters of ASCII that are printed, the blank among them. -/
def Printable (cs : List Char) : Prop := ∀ c ∈ cs, ' ' ≤ c ∧ c ≤ '~'

instance (cs : List Char) : Decidable (Printable cs) := List.decidableBAll _ _

@[simp] theorem printable_nil : Printable [] := by simp [Printable]

@[simp] theorem printable_cons {c : Char} {cs : List Char} :
    Printable (c :: cs) ↔ (' ' ≤ c ∧ c ≤ '~') ∧ Printable cs :=
  List.forall_mem_cons

@[simp] theorem printable_append {a b : List Char} : Printable (a ++ b) ↔ Printable a ∧ Printable b :=
  List.forall_mem_append

theorem printable_escapeUnit (n : Nat) : Printable (escapeUnit n) := by
  have hdigit : ∀ k < 16, ' ' ≤ Hex.digit k ∧ Hex.digit k ≤ '~' := by decide
  have hmod : ∀ k, k % 16 < 16 := fun k => Nat.mod_lt _ (by decide)
  simp only [escapeUnit, Hex.padded, List.nil_append, List.cons_append]
  intro c hc
  simp only [List.mem_cons, List.not_mem_nil, or_false] at hc
  rcases hc with rfl | rfl | rfl | rfl | rfl | rfl
  · decide
  · decide
  all_goals exact hdigit _ (hmod _)

theorem printable_escape (p : CodePoint) : Printable (escape p) := by
  rcases escape_cases p with h | ⟨x, c, rfl, h, hx, -⟩ | ⟨c, rfl, h, -, -, hc⟩
  · rw [h]
    intro c hc
    obtain ⟨n, -, hc⟩ := List.mem_flatMap.mp hc
    exact printable_escapeUnit n c hc
  · rw [h]
    unfold unescape? at hx
    split at hx <;> cases hx <;> decide
  · rw [h]
    intro d hd
    obtain rfl := List.mem_singleton.mp hd
    exact hc

theorem printable_writeText (t : Text) : Printable (writeText t) := by
  have hbody : Printable (t.flatMap escape) := by
    intro c hc
    obtain ⟨p, -, hc⟩ := List.mem_flatMap.mp hc
    exact printable_escape p c hc
  simp [writeText, hbody]

/-! ## Numbers -/

theorem printable_digits {ds : List Char} (h : ∀ d ∈ ds, Digit.isDigit d = true) : Printable ds := by
  intro d hd
  have hdigit := h d hd
  simp only [Digit.isDigit, Bool.and_eq_true, decide_eq_true_eq] at hdigit
  exact ⟨Char.le_trans (by decide) hdigit.1, Char.le_trans hdigit.2 (by decide)⟩

@[simp] theorem printable_toDigits (n : Nat) : Printable (Nat.toDigits 10 n) :=
  printable_digits fun _ hd => Digit.isDigit_of_mem_toDigits hd

theorem printable_integerText (n : Int) : Printable (integerText n) := by
  unfold integerText
  dsimp only
  split <;> simp

@[simp] theorem printable_replicate_zero (n : Nat) : Printable (List.replicate n '0') := by
  intro c hc
  rw [(List.mem_replicate.mp hc).2]
  decide

theorem printable_exponentText (e : Int) : Printable (Binary64.exponentText e) := by
  unfold Binary64.exponentText Binary64.digitsOf
  dsimp only
  split <;> split <;> simp

theorem printable_digitsText {ds : List Char} (h : Printable ds) (point : Int) :
    Printable (Binary64.digitsText ds point) := by
  have htake : ∀ n, Printable (ds.take n) := fun n c hc => h c (List.mem_of_mem_take hc)
  have hdrop : ∀ n, Printable (ds.drop n) := fun n c hc => h c (List.mem_of_mem_drop hc)
  unfold Binary64.digitsText
  dsimp only
  split
  · split
    · simp_all [printable_exponentText]
    · simp_all [printable_exponentText]
    · simp
  · split
    · simp [h]
    · split <;> simp [h, htake, hdrop]

theorem printable_dropTrailingZeros {ds : List Char} (h : Printable ds) : Printable (Binary64.dropTrailingZeros ds) :=
  fun c hc => h c (List.mem_reverse.mp ((List.dropWhile_sublist _).subset (List.mem_reverse.mp hc)))

theorem printable_text (x : Binary64) : Printable (x.text "NaN" "Infinity") := by
  cases x with
  | nan => decide
  | infinite negative => cases negative <;> decide
  | finite negative e f =>
    have hdigits := fun n => printable_digitsText (printable_dropTrailingZeros (printable_toDigits n))
    show Printable (Binary64.finiteText negative e f)
    unfold Binary64.finiteText Binary64.digitsOf
    dsimp only
    split <;> split <;> simp [hdigits]

/-! ## Values -/

section

variable {F : Type} {s : Style F}

theorem writeInteger_ok {n : Int} {t : List Char} (h : writeInteger n = .ok t) : t = integerText n := by
  unfold writeInteger at h
  split at h
  · cases h
  · exact (Except.ok.inj h).symm

theorem writeFloat_ok {strict : Bool} {x : Binary64} {t : List Char} (h : writeFloat strict x = .ok t) :
    t = x.text "NaN" "Infinity" := by
  unfold writeFloat at h
  split at h
  · cases h
  · exact (Except.ok.inj h).symm

theorem isFinite_of_writeFloat {strict : Bool} {x : Binary64} {t : List Char} (hs : strict = true)
    (h : writeFloat strict x = .ok t) : x.isFinite = true := by
  cases hx : x.isFinite with
  | true => rfl
  | false =>
    rw [writeFloat, hs, hx] at h
    cases h

/-- The characters that a layout breaks lines with. -/
def Layout.breaks : Layout → List Char
  | .oneLine => []
  | .indented _ => ['\n']

/-- Printed characters, and the line breaks of a layout. -/
def PrintedIn (l : Layout) (cs : List Char) : Prop := ∀ c ∈ cs, (' ' ≤ c ∧ c ≤ '~') ∨ c ∈ l.breaks

@[simp] theorem printedIn_cons {l : Layout} {c : Char} {cs : List Char} :
    PrintedIn l (c :: cs) ↔ ((' ' ≤ c ∧ c ≤ '~') ∨ c ∈ l.breaks) ∧ PrintedIn l cs :=
  List.forall_mem_cons

@[simp] theorem printedIn_append {l : Layout} {a b : List Char} :
    PrintedIn l (a ++ b) ↔ PrintedIn l a ∧ PrintedIn l b :=
  List.forall_mem_append

theorem Printable.printedIn {cs : List Char} (h : Printable cs) (l : Layout) : PrintedIn l cs :=
  fun c hc => Or.inl (h c hc)

@[simp] theorem printedIn_newline (l : Layout) (level : Nat) : PrintedIn l (l.newline level) := by
  cases l with
  | oneLine => exact printable_nil.printedIn _
  | indented width =>
    refine printedIn_cons.mpr ⟨Or.inr List.mem_cons_self, fun c hc => Or.inl ?_⟩
    rw [(List.mem_replicate.mp hc).2]
    decide

@[simp] theorem printedIn_comma (l : Layout) (level : Nat) : PrintedIn l (l.comma level) := by
  cases l with
  | oneLine =>
    have hcomma : Printable [',', ' '] := by decide
    exact hcomma.printedIn _
  | indented width => exact printedIn_cons.mpr ⟨Or.inl (by decide), printedIn_newline _ level⟩

@[simp] theorem printedIn_writeText (l : Layout) (t : Text) : PrintedIn l (writeText t) :=
  (printable_writeText t).printedIn l

mutual

/-- Whatever is written is printed. -/
theorem printedIn_writeAt {level : Nat} {t : List Char} :
    (v : Value F) → writeAt s level v = .ok t → PrintedIn s.layout t
  | .null | .bool true | .bool false | .array [] | .object [] => by
    intro h
    cases h
    exact Printable.printedIn (by decide) _
  | .int n => by
    intro h
    rw [writeAt] at h
    rw [writeInteger_ok h]
    exact (printable_integerText n).printedIn _
  | .float x => by
    intro h
    rw [writeAt] at h
    rw [writeFloat_ok h]
    exact (printable_text x).printedIn _
  | .str t => by
    intro h
    cases h
    exact printedIn_writeText _ t
  | .array (v :: rest) => by
    intro h
    obtain ⟨first, hf, h⟩ := bind_eq_ok.mp h
    obtain ⟨others, ho, h⟩ := bind_eq_ok.mp h
    cases h
    simp [printedIn_writeAt v hf, printedIn_writeItems rest ho, printable_nil.printedIn]
  | .object ((k, v) :: rest) => by
    intro h
    obtain ⟨first, hf, h⟩ := bind_eq_ok.mp h
    obtain ⟨others, ho, h⟩ := bind_eq_ok.mp h
    cases h
    simp [printedIn_writeAt v hf, printedIn_writeMembers rest ho, printable_nil.printedIn]
  | .foreign x => by
    intro h
    cases h

theorem printedIn_writeItems {level : Nat} {t : List Char} :
    (items : List (Value F)) → writeItems s level items = .ok t → PrintedIn s.layout t
  | [] => by
    intro h
    cases h
    exact printable_nil.printedIn _
  | v :: rest => by
    intro h
    obtain ⟨first, hf, h⟩ := bind_eq_ok.mp h
    obtain ⟨others, ho, h⟩ := bind_eq_ok.mp h
    cases h
    simp [printedIn_writeAt v hf, printedIn_writeItems rest ho]

theorem printedIn_writeMembers {level : Nat} {t : List Char} :
    (members : List (Text × Value F)) → writeMembers s level members = .ok t → PrintedIn s.layout t
  | [] => by
    intro h
    cases h
    exact printable_nil.printedIn _
  | (k, v) :: rest => by
    intro h
    obtain ⟨first, hf, h⟩ := bind_eq_ok.mp h
    obtain ⟨others, ho, h⟩ := bind_eq_ok.mp h
    cases h
    simp [printedIn_writeAt v hf, printedIn_writeMembers rest ho]

end

/-- Whatever is written on one line is printed without line breaks. -/
theorem printable_writeAt (hs : s.layout = .oneLine) {level : Nat} {t : List Char} (v : Value F)
    (h : writeAt s level v = .ok t) : Printable t := by
  have hprinted := printedIn_writeAt v h
  rw [hs] at hprinted
  exact fun c hc => (hprinted c hc).resolve_right List.not_mem_nil

end

end AgentBridge.Json
