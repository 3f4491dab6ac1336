import AgentBridge.Json.Reader
import AgentBridge.Proofs.Lexemes

/-
  AgentBridge.Proofs.Reading — the reader as a machine over lexemes.

  `State.Step` says what a token may do to a state; taking a lexeme is such a step and every
  step is taken (`take_ok`, `take_of_step`). A limit is exceeded only where a value is
  expected (`take_eq_limit_iff`). For whole texts: a text is read as a value exactly when its
  lexemes lead from the start to that value (`read_eq_ok_iff`), and reading is cut short
  exactly when the text exceeds a limit (`read_eq_limit_iff`).
-/

namespace AgentBridge.Json

/-! ## One lexeme -/

namespace State

/-- The states in which a value has to or may come, with the brackets around it. -/
inductive Expects : State → List Frame → Prop
  | value (around : List Frame) : Expects (.value around) around
  | first (around : List Frame) : Expects (.arrayStart around) (.array [] :: around)

/-- The states in which a key has to or may come, with the members before it. -/
inductive ExpectsKey : State → List (Text × Json) → List Frame → Prop
  | first (around : List Frame) : ExpectsKey (.objectStart around) [] around
  | next (members : List (Text × Json)) (around : List Frame) : ExpectsKey (.objectKey members around) members around

/-- The states in which a bracket may be closed, with the value that it completes. -/
inductive Closes : State → Bracket → Json → List Frame → Prop
  | noItems (around : List Frame) : Closes (.arrayStart around) .array (.array []) around
  | items (items : List Json) (around : List Frame) :
    Closes (.arrayNext items around) .array (.array items.reverse) around
  | noMembers (around : List Frame) : Closes (.objectStart around) .object (.object []) around
  | members (members : List (Text × Json)) (around : List Frame) :
    Closes (.objectNext members around) .object (.object members) around

/-- What a token does to a state. -/
inductive Step : State → Token → State → Prop
  | scalar {s : State} {around : List Frame} (v : Json) :
    s.Expects around → Step s (.scalar (.ok v)) (.afterValue v around)
  | text {s : State} {around : List Frame} (t : Text) :
    s.Expects around → Step s (.text (.ok t)) (.afterValue (.str t) around)
  | openArray {s : State} {around : List Frame} :
    s.Expects around → around.length < nestingLimit → Step s (.opening .array) (.arrayStart around)
  | openObject {s : State} {around : List Frame} :
    s.Expects around → around.length < nestingLimit → Step s (.opening .object) (.objectStart around)
  | close {s : State} {b : Bracket} {v : Json} {around : List Frame} :
    s.Closes b v around → Step s (.closing b) (.afterValue v around)
  | nextItem (items : List Json) (around : List Frame) :
    Step (.arrayNext items around) .comma (.value (.array items :: around))
  | nextMember (members : List (Text × Json)) (around : List Frame) :
    Step (.objectNext members around) .comma (.objectKey members around)
  | key {s : State} {members : List (Text × Json)} {around : List Frame} (t : Text) :
    s.ExpectsKey members around → Step s (.text (.ok t)) (.objectColon members t around)
  | colon (members : List (Text × Json)) (key : Text) (around : List Frame) :
    Step (.objectColon members key around) .colon (.value (.member members key :: around))

theorem begin_ok {around : List Frame} {l : Lexeme} {s s' : State} (hs : s.Expects around)
    (h : State.begin around l = .ok s') : Step s l.token s' := by
  unfold State.begin at h
  split at h
  · rename_i hl; rw [hl]; cases h; exact .scalar _ hs
  · cases h
  · rename_i hl; rw [hl]; cases h; exact .text _ hs
  · cases h
  · rename_i hl; rw [hl]; split at h
    · cases h; exact .openArray hs ‹_›
    · cases h
  · rename_i hl; rw [hl]; split at h
    · cases h; exact .openObject hs ‹_›
    · cases h
  · cases h

theorem key_ok {members : List (Text × Json)} {around : List Frame} {l : Lexeme} {s s' : State}
    (hs : s.ExpectsKey members around) (h : State.key members around l = .ok s') : Step s l.token s' := by
  unfold State.key at h
  split at h
  · rename_i hl; rw [hl]; cases h; exact .key _ hs
  · cases h
  · cases h

/-- Taking a lexeme is a step. -/
theorem take_ok {s s' : State} {l : Lexeme} (h : s.take l = .ok s') : Step s l.token s' := by
  cases s with
  | value around => exact begin_ok (.value around) h
  | arrayStart around =>
    simp only [take] at h
    split at h
    · rename_i hl; rw [hl]; cases h; exact .close (.noItems around)
    · exact begin_ok (.first around) h
  | arrayNext items around =>
    simp only [take] at h
    split at h
    · rename_i hl; rw [hl]; cases h; exact .nextItem items around
    · rename_i hl; rw [hl]; cases h; exact .close (.items items around)
    · cases h
  | objectStart around =>
    simp only [take] at h
    split at h
    · rename_i hl; rw [hl]; cases h; exact .close (.noMembers around)
    · exact key_ok (.first around) h
  | objectKey members around => exact key_ok (.next members around) h
  | objectColon members key around =>
    simp only [take] at h
    split at h
    · rename_i hl; rw [hl]; cases h; exact .colon members key around
    · cases h
  | objectNext members around =>
    simp only [take] at h
    split at h
    · rename_i hl; rw [hl]; cases h; exact .nextMember members around
    · rename_i hl; rw [hl]; cases h; exact .close (.members members around)
    · cases h
  | done v => cases h

/-- Every step is taken. -/
theorem take_of_step {s s' : State} {l : Lexeme} (h : Step s l.token s') : s.take l = .ok s' := by
  generalize ht : l.token = t at h
  cases h with
  | scalar v hs => cases hs <;> simp [take, State.begin, ht]
  | text t hs => cases hs <;> simp [take, State.begin, ht]
  | openArray hs hn => cases hs <;> simp [take, State.begin, ht] <;> simpa using hn
  | openObject hs hn => cases hs <;> simp [take, State.begin, ht] <;> simpa using hn
  | close hs => cases hs <;> simp [take, ht]
  | nextItem items around => simp [take, ht]
  | nextMember members around => simp [take, ht]
  | key t hs => cases hs <;> simp [take, State.key, ht]
  | colon members key around => simp [take, ht]

/-- What a lexeme exceeds as the first one of a value inside some brackets: the digits of a whole
number, or the number of brackets. -/
def Oversteps (l : Lexeme) (around : List Frame) (e : Limit) : Prop :=
  l.token = .scalar (.error e) ∨ ∃ b, l.token = .opening b ∧ nestingLimit ≤ around.length ∧ e = .nesting b

theorem begin_eq_limit_iff {around : List Frame} {l : Lexeme} {e : Limit} :
    State.begin around l = .error (.limit e) ↔ Oversteps l around e := by
  obtain ⟨t, start⟩ := l
  cases t with
  | opening b =>
    by_cases hn : around.length < nestingLimit
    · cases b <;> simp [State.begin, Oversteps, hn]
    · cases b <;> simp [State.begin, Oversteps, hn, Nat.le_of_not_lt hn, eq_comm]
  | scalar v => cases v <;> simp [State.begin, Oversteps]
  | text c => cases c <;> simp [State.begin, Oversteps]
  | _ => simp [State.begin, Oversteps, Stop.fault]

/-- A limit is exceeded where a value is expected, and nowhere else. -/
theorem take_eq_limit_iff {s : State} {l : Lexeme} {e : Limit} :
    s.take l = .error (.limit e) ↔ ∃ around, s.Expects around ∧ Oversteps l around e := by
  constructor
  · intro h
    cases s with
    | value around => exact ⟨around, .value around, begin_eq_limit_iff.mp h⟩
    | arrayStart around =>
      simp only [take] at h
      split at h
      · cases h
      · exact ⟨_, .first around, begin_eq_limit_iff.mp h⟩
    | objectStart around =>
      simp only [take, State.key] at h
      repeat' split at h
      all_goals cases h
    | objectKey members around =>
      simp only [take, State.key] at h
      repeat' split at h
      all_goals cases h
    | done v => cases h
    | _ =>
      simp only [take] at h
      repeat' split at h
      all_goals cases h
  · rintro ⟨around, hs, h⟩
    cases hs with
    | value around => exact begin_eq_limit_iff.mpr h
    | first outer =>
      simp only [take]
      split
      · rename_i hl
        rcases h with h | ⟨b, h, -⟩ <;> rw [hl] at h <;> cases h
      · exact begin_eq_limit_iff.mpr h

/-! ## Many lexemes -/

/-- The state after some lexemes. -/
def feed : State → List Lexeme → Except Stop State
  | s, [] => .ok s
  | s, l :: rest => do feed (← s.take l) rest

theorem feed_append (s : State) (a b : List Lexeme) : s.feed (a ++ b) = s.feed a >>= fun s' => s'.feed b := by
  induction a generalizing s with
  | nil => rfl
  | cons l a ih => simp only [List.cons_append, feed, ih, bind_assoc]

theorem run_append (size : Nat) (s : State) (a b : List Lexeme) :
    run size s (a ++ b) = s.feed a >>= fun s' => run size s' b := by
  induction a generalizing s with
  | nil => rfl
  | cons l a ih => simp only [List.cons_append, feed, run, ih, bind_assoc]

theorem run_eq_ok_iff {size : Nat} {s : State} {ls : List Lexeme} {v : Json} :
    run size s ls = .ok v ↔ s.feed ls = .ok (.done v) := by
  have hrun := run_append size s ls []
  rw [List.append_nil] at hrun
  rw [hrun, bind_eq_ok]
  constructor
  · rintro ⟨s', hs, hf⟩
    cases s' with
    | done w => cases hf; exact hs
    | _ => cases hf
  · exact fun h => ⟨_, h, rfl⟩

/-- Behind the whole value there is no lexeme. -/
theorem feed_done {v : Json} {ls : List Lexeme} {s : State} (h : (State.done v).feed ls = .ok s) :
    ls = [] ∧ s = .done v := by
  cases ls with
  | nil => cases h; exact ⟨rfl, rfl⟩
  | cons l ls => cases h

theorem run_eq_limit_iff {size : Nat} {s : State} {ls : List Lexeme} {e : Limit} :
    run size s ls = .error (.limit e) ↔ ∃ before l after s' around,
      ls = before ++ l :: after ∧ s.feed before = .ok s' ∧ s'.Expects around ∧ Oversteps l around e := by
  induction ls generalizing s with
  | nil =>
    constructor
    · intro h; cases s <;> cases h
    · rintro ⟨before, l, after, s', around, h, -⟩; simp at h
  | cons x ls ih =>
    simp only [run, bind_eq_error]
    constructor
    · rintro (h | ⟨s', hs, h⟩)
      · obtain ⟨around, he, ho⟩ := take_eq_limit_iff.mp h
        exact ⟨[], x, ls, s, around, rfl, rfl, he, ho⟩
      · obtain ⟨before, l, after, s'', around, rfl, hb, he, ho⟩ := ih.mp h
        exact ⟨x :: before, l, after, s'', around, rfl, bind_eq_ok.mpr ⟨s', hs, hb⟩, he, ho⟩
    · rintro ⟨before, l, after, s', around, h, hb, he, ho⟩
      cases before with
      | nil =>
        obtain ⟨rfl, rfl⟩ := List.cons.inj h
        cases hb
        exact Or.inl (take_eq_limit_iff.mpr ⟨around, he, ho⟩)
      | cons b before =>
        obtain ⟨rfl, rfl⟩ := List.cons.inj h
        obtain ⟨s'', hs, hb⟩ := bind_eq_ok.mp hb
        exact Or.inr ⟨s'', hs, ih.mpr ⟨before, l, after, s', around, rfl, hb, he, ho⟩⟩

end State

/-! ## Texts -/

/-- A text exceeds a limit of the reader: it begins as JSON up to a lexeme that has to begin a value, and
this lexeme is a whole number with too many digits or a bracket inside too many others. -/
def Exceeds (cs : List Char) (e : Limit) : Prop :=
  ∃ before l after s around, lexemes cs = before ++ l :: after ∧ (State.value []).feed before = .ok s ∧
    s.Expects around ∧ State.Oversteps l around e

/-- A byte order mark begins no lexeme. -/
theorem lexemes_byteOrderMark {cs : List Char} (h : cs.head? = some '\uFEFF') : lexemes cs = [⟨.other, 0⟩] := by
  cases cs with
  | nil => cases h
  | cons c rest =>
    obtain rfl := Option.some.inj h
    have hw : words.find? (fun w => w.1.isPrefixOf ('\uFEFF' :: rest)) = none := by
      simp [words, List.isPrefixOf]
    have hd : Digit.isDigit '\uFEFF' = false := by decide
    simp [lexemes, lexemesFrom, isSpace, punctuation?, scanScalar, hw, scanNumber, scanUnsigned, wholeDigits, hd]

theorem not_exceeds_byteOrderMark {cs : List Char} {e : Limit} (h : cs.head? = some '\uFEFF') : ¬ Exceeds cs e := by
  rintro ⟨before, l, after, s, around, hl, hb, -, ho⟩
  rw [lexemes_byteOrderMark h] at hl
  cases before with
  | nil =>
    obtain ⟨rfl, -⟩ := List.cons.inj hl
    rcases ho with ho | ⟨b, ho, -⟩ <;> cases ho
  | cons b before => simp at hl

/-- Reading a text is scanning it, up to how a fault is described. -/
theorem read_eq_ok_iff_scan {cs : List Char} {v : Json} : read cs = .ok v ↔ scan cs = .ok v := by
  unfold read
  cases scan cs with
  | ok v => simp
  | error stop => cases stop <;> simp

theorem read_eq_limit_iff_scan {cs : List Char} {e : Limit} :
    read cs = .error (.limit e) ↔ scan cs = .error (.limit e) := by
  unfold read
  cases scan cs with
  | ok v => simp
  | error stop => cases stop <;> simp

/-- Reading a text is cut short exactly where the text exceeds a limit. -/
theorem read_eq_limit_iff {cs : List Char} {e : Limit} : read cs = .error (.limit e) ↔ Exceeds cs e := by
  rw [read_eq_limit_iff_scan, scan]
  by_cases hb : cs.head? = some '\uFEFF'
  · simp [hb, Stop.fault, not_exceeds_byteOrderMark hb]
  · rw [if_neg hb, State.run_eq_limit_iff]
    rfl

theorem read_eq_ok_iff {cs : List Char} {v : Json} :
    read cs = .ok v ↔ cs.head? ≠ some '\uFEFF' ∧ (State.value []).feed (lexemes cs) = .ok (.done v) := by
  rw [read_eq_ok_iff_scan, scan]
  by_cases hb : cs.head? = some '\uFEFF'
  · simp [hb, Stop.fault]
  · rw [if_neg hb, State.run_eq_ok_iff]
    simp [hb]

end AgentBridge.Json
