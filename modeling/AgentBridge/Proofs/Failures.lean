import AgentBridge.Call
import AgentBridge.Proofs.Leading
import AgentBridge.Proofs.Trimming
import AgentBridge.Proofs.Utf8

/-
  AgentBridge.Proofs.Failures — how a call can fail.

  Whatever a process does, a call gives a value or one of the bridge errors, unless the output
  of the process exceeds a limit of the reader: a whole number with too many digits, or too
  many brackets inside each other, where a value is expected. `Exceeds` says exactly when; it
  is followed from texts over replies to calls.
-/

namespace AgentBridge

/-! ## Texts that exceed a limit -/

namespace Json

theorem not_exceeds_nil {l : Limit} : ¬ Exceeds [] l := by
  rintro ⟨before, x, after, s, around, h, -⟩
  simp [lexemes, lexemesFrom] at h

end Json

/-! ## Replies -/

theorem Envelope.read_eq_limit_iff {cs : List Char} {l : Json.Limit} :
    Envelope.read cs = .error (.limit l) ↔ Json.Exceeds cs l := by
  rw [← Json.read_eq_limit_iff]
  unfold Envelope.read
  cases Json.read cs with
  | ok v => simp only []; split <;> simp
  | error e => cases e <;> simp

/-- A text that is no envelope fails with one kind of error. -/
theorem Envelope.kind_of_read {cs : List Char} {e : CallError} (h : Envelope.read cs = .error (.reported e)) :
    e.kind = .envelopeParse := by
  unfold Envelope.read at h
  split at h
  · cases h
    rfl
  · cases h
  · split at h
    · cases h
    · cases h
      rfl

theorem Envelope.read_of_object {cs : List Char} {m : List (Text × Json)} {e : Envelope}
    (h : Json.read cs = .ok (.object m)) (he : Envelope.ofMembers m = .ok e) : Envelope.read cs = .ok e := by
  simp only [Envelope.read, h, Envelope.ofJson, Shape.record, he]

/-- An envelope up to its data. -/
def Envelope.dataFront : List Char := "\x7b\"ok\": true, \"data\":".toList

theorem Envelope.leads_dataFront :
    Json.Leads dataFront (.value []) (.value [.member [("ok", .bool true)] "data"]) := by
  have htrue : Json.scanScalar "true".toList = some (.ok (.bool true), 4) := rfl
  have hmember : Json.Leads (',' :: ' ' :: (Json.writeText "data" ++ [':'])) _ _ :=
    .mark rfl (.nextMember [("ok", .bool true)] []) (.blank
      (.text (t := "data") (.key "data" (.next _ [])) (.mark rfl (.colon _ "data" []) (.nil _))))
  exact .mark rfl (.openObject (.value []) (by decide)) (.text (t := "ok") (.key "ok" (.first []))
    (.mark rfl (.colon [] "ok" []) (.blank
      (.append (.scalar htrue (.scalar (.bool true) (.value _))) hmember (Json.ends_cons (by decide) _)))))

theorem Envelope.trim_dataFront (n : Nat) :
    Blank.trim (dataFront ++ ' ' :: List.replicate (n + 1) '1') = dataFront ++ ' ' :: List.replicate (n + 1) '1' := by
  rw [List.replicate_succ', ← List.cons_append, ← List.append_assoc]
  exact Blank.trim_enclosed (by decide) (by decide) _

/-- In an envelope, too many digits exceed the limit of digits. -/
theorem Envelope.exceeds_digits {n : Nat} (hn : Json.digitLimit < n) :
    Json.Exceeds (dataFront ++ ' ' :: List.replicate n '1') (.digits n) := by
  have hones : Digit.Whole (List.replicate n '1') := Digit.whole_ones (Nat.ne_zero_of_lt hn)
  have := leads_dataFront.exceeds_digits (.value _) hones (by simpa using hn)
  rwa [List.length_replicate] at this

namespace Reply

theorem result_of_trim {r : Reply} {out : List Char} (hd : Utf8.decode? r.stdout = .ok out)
    (hne : Blank.trim out ≠ []) :
    r.result = Envelope.read (Blank.trim out) >>= fun e => verdict e r.complaint r.status := by
  have hempty : (Blank.trim out).isEmpty = false := by simpa using hne
  simp only [result, hd, hempty]
  rfl

theorem result_of_read {r : Reply} {out : List Char} {e : Envelope} (hd : Utf8.decode? r.stdout = .ok out)
    (he : Envelope.read (Blank.trim out) = .ok e) : r.result = verdict e r.complaint r.status := by
  have hne : Blank.trim out ≠ [] := by intro hnil; rw [hnil] at he; cases he
  rw [result_of_trim hd hne, he]
  rfl

/-- The output stream is text that exceeds a limit of the reader. -/
def Exceeds (r : Reply) (l : Json.Limit) : Prop :=
  ∃ out, Utf8.decode? r.stdout = .ok out ∧ Json.Exceeds (Blank.trim out) l

/-- A reply is cut short exactly when its output exceeds a limit. -/
theorem result_eq_limit_iff {r : Reply} {l : Json.Limit} : r.result = .error (.limit l) ↔ r.Exceeds l := by
  unfold result Exceeds
  cases hd : Utf8.decode? r.stdout with
  | error f => simp
  | ok out =>
    simp only [Except.ok.injEq, exists_eq_left']
    by_cases hne : Blank.trim out = []
    · simp only [hne, List.isEmpty_nil, if_true, Json.not_exceeds_nil, iff_false]
      split <;> simp
    · have hempty : (Blank.trim out).isEmpty = false := by simpa using hne
      rw [hempty, if_neg (by simp), bind_eq_error, ← Envelope.read_eq_limit_iff]
      constructor
      · rintro (h | ⟨e, -, h⟩)
        · exact h
        · unfold verdict at h
          split at h <;> simp at h
      · exact Or.inl

theorem exceeds_of_trim {cs : List Char} {l : Json.Limit} {stderr : List UInt8} {status : Option Int}
    (htrim : Blank.trim cs = cs) (h : Json.Exceeds cs l) : (Reply.mk (Utf8.encode cs) stderr status).Exceeds l :=
  ⟨cs, Utf8.decode?_eq_ok_iff.mpr rfl, by rwa [htrim]⟩

end Reply

/-! ## Calls -/

/-- A value, or an error that is a kind of bridge error. -/
def Typed (a : Answer) : Prop :=
  (∃ v, a = .ok v) ∨ ∃ e, a = .error (.reported e) ∧ ErrorKind.bridge ∈ e.kind.chain

theorem typed_iff {a : Answer} : Typed a ↔ ∀ l, a ≠ .error (.limit l) := by
  constructor
  · rintro (⟨v, rfl⟩ | ⟨e, rfl, -⟩) l h <;> cases h
  · intro h
    cases a with
    | ok v => exact Or.inl ⟨v, rfl⟩
    | error f =>
      cases f with
      | reported e => exact Or.inr ⟨e, rfl, e.bridge_mem_chain⟩
      | limit l => exact absurd rfl (h l)

namespace Config

theorem settle_eq_limit_iff {c : Config} {debug : Bool} {action : Text} {o : Outcome} {l : Json.Limit} :
    (c.settle debug action o).1 = .error (.limit l) ↔
      ∃ status stdout stderr, o = .exited status stdout stderr ∧ (reply status stdout stderr).Exceeds l := by
  cases o with
  | exited status stdout stderr =>
    refine Reply.result_eq_limit_iff.trans ⟨fun h => ⟨status, stdout, stderr, rfl, h⟩, ?_⟩
    rintro ⟨_, _, _, ho, h⟩
    cases ho
    exact h
  | expired => simp [settle]
  | notStarted f => simp [settle]

/-- The output of the process that a call starts exceeds a limit of the reader. -/
def Exceeds (c : Config) (run : Runner) (call : Call) (l : Json.Limit) : Prop :=
  ∃ argv status stdout stderr, c.argv call = .ok argv ∧ run ⟨argv, c.deadline⟩ = .exited status stdout stderr ∧
    (reply status stdout stderr).Exceeds l

theorem call_eq_limit_iff {c : Config} {debug : Bool} {run : Runner} {call : Call} {l : Json.Limit} :
    (c.call debug run call).result = .error (.limit l) ↔ c.Exceeds run call l := by
  unfold Config.call Exceeds
  cases c.argv call with
  | error e => simp
  | ok argv =>
    simp only [Except.ok.injEq]
    rw [settle_eq_limit_iff]
    constructor
    · rintro ⟨status, stdout, stderr, h⟩
      exact ⟨argv, status, stdout, stderr, rfl, h⟩
    · rintro ⟨_, status, stdout, stderr, rfl, h⟩
      exact ⟨status, stdout, stderr, h⟩

/-- Each limit is exceeded by some output: every call that can be started can be cut short in both ways. -/
theorem exists_exceeds {c : Config} {call : Call} {argv : List Text} (h : c.argv call = .ok argv) :
    (∃ run n, c.Exceeds run call (.digits n)) ∧ ∃ run b, c.Exceeds run call (.nesting b) := by
  have hbrackets : ∀ n, Blank.trim (List.replicate (n + 1) '[' ++ ['[']) = List.replicate (n + 1) '[' ++ ['['] := by
    intro n
    exact Blank.trim_enclosed (by decide) (by decide) (List.replicate n '[')
  exact ⟨⟨fun _ => .exited 0 (some (Utf8.encode _)) none, _, argv, 0, _, _, h, rfl,
      Reply.exceeds_of_trim (Envelope.trim_dataFront Json.digitLimit) (Envelope.exceeds_digits (Nat.lt_succ_self _))⟩,
    ⟨fun _ => .exited 0 (some (Utf8.encode _)) none, _, argv, 0, _, _, h, rfl,
      Reply.exceeds_of_trim (hbrackets (Json.nestingLimit - 1)) (Json.exceeds_nesting [])⟩⟩

/-- A call gives a value or a bridge error exactly when the output of its process stays within the limits
of the reader, and outside of them it says which limit was exceeded. -/
theorem call_typed_iff (c : Config) (debug : Bool) (run : Runner) (call : Call) :
    (Typed (c.call debug run call).result ↔ ∀ l, ¬ c.Exceeds run call l) ∧
      ∀ l, (c.call debug run call).result = .error (.limit l) ↔ c.Exceeds run call l := by
  refine ⟨?_, fun l => call_eq_limit_iff⟩
  rw [typed_iff]
  exact forall_congr' fun l => not_congr call_eq_limit_iff

end Config

end AgentBridge
