import AgentBridge.Proofs.Failures
import AgentBridge.Call

/-
  AgentBridge.Proofs.Influence — what may influence the outcome of a reply.

  The output stream alone decides, with two exceptions: where it is blank, and where its
  envelope refuses without a reason, the trimmed text of the error stream counts. The exit
  status is only handed on with a refusal, and the action and the switch for debugging are
  seen in the log only. So two replies with one output stream have one outcome, up to this
  (`classify_of_same_output`); and in the two exceptions the error stream does make a
  difference (`depends_iff`).
-/

namespace AgentBridge

/-! ## Exit statuses -/

/-- The error with another exit status in place of the one it hands on. -/
def CallError.withStatus (status : Option Int) : CallError → CallError
  | .refused message _ => .refused message status
  | e => e

theorem CallError.withStatus_eq_self {e : CallError} (h : e.kind ≠ .backend) (status : Option Int) :
    e.withStatus status = e := by
  cases e with
  | refused message status => exact absurd rfl h
  | _ => rfl

namespace Reply

/-- The answer with another exit status in place of the one it hands on. -/
def withStatus (status : Option Int) : Answer → Answer
  | .ok v => .ok v
  | .error f => .error (f.map (CallError.withStatus status))

/-- The outcome of a reply with what is logged about it. -/
def classify (r : Reply) (action : Text) (debug : Bool) : Answer × List LogEntry :=
  (r.result, r.remarks action debug)

/-! ## What the output stream says -/

/-- The output stream is text, with nothing in it but blanks. -/
def SaysNothing (out : List UInt8) : Prop := ∃ cs, Utf8.decode? out = .ok cs ∧ Blank.trim cs = []

/-- The output stream holds an envelope, with blanks around it at most. -/
def Holds (out : List UInt8) (e : Envelope) : Prop :=
  ∃ cs, Utf8.decode? out = .ok cs ∧ Envelope.read (Blank.trim cs) = .ok e

/-- The output stream holds an envelope that refuses without a reason. -/
def Unexplained (out : List UInt8) : Prop := ∃ e, Holds out e ∧ e.ok = false ∧ e.error = none

/-- How an output stream without an envelope fails. -/
def rejectedKinds : List ErrorKind := [.outputDecode, .envelopeParse]

/-- The output stream has something in it that is no envelope. -/
def Rejected (out : List UInt8) (f : Failure CallError) : Prop :=
  (∀ r : Reply, r.stdout = out → r.result = .error f) ∧ ∀ e, f = .reported e → e.kind ∈ rejectedKinds

theorem withStatus_of_rejected {out : List UInt8} {f : Failure CallError} (h : Rejected out f)
    (status : Option Int) : withStatus status (.error f) = .error f := by
  cases f with
  | limit l => rfl
  | reported e =>
    have hkind := h.2 e rfl
    have hne : e.kind ≠ .backend := by
      intro hb
      rw [hb] at hkind
      exact absurd hkind (by decide)
    rw [withStatus, Failure.map, CallError.withStatus_eq_self hne]

/-! ## What a reply means -/

variable {r r' : Reply}

theorem result_of_holds {e : Envelope} (h : Holds r.stdout e) : r.result = verdict e r.complaint r.status := by
  obtain ⟨cs, hd, he⟩ := h
  exact result_of_read hd he

theorem result_of_refusal {e : Envelope} {message : Text} (h : Holds r.stdout e) (hok : e.ok = false)
    (herror : e.error = some message) : r.result = .error (.reported (.refused message r.status)) := by
  rw [result_of_holds h, verdict, hok, herror]
  rfl

/-- A refusal without a reason takes the complaint for one, if there is a complaint. -/
theorem result_of_unexplained (h : Unexplained r.stdout) : r.result = .error (.reported (.refused
    (if r.complaint = [] then Text.ofString CallError.unknownReason else Text.ofChars r.complaint) r.status)) := by
  obtain ⟨e, he, hok, herror⟩ := h
  rw [result_of_holds he, verdict, hok, herror]
  simp only [Bool.false_eq_true, if_false, List.isEmpty_iff]

/-- Where nothing was said, the complaint is all there is. -/
theorem result_of_saysNothing (h : SaysNothing r.stdout) :
    r.result = .error (.reported (if r.complaint = [] then .silent else .diagnostic r.complaint)) := by
  obtain ⟨cs, hd, hne⟩ := h
  simp only [result, hd, hne, List.isEmpty_nil, if_true, List.isEmpty_iff]
  split
  · rfl
  · rfl

/-- An output stream is blank, holds an envelope, or is rejected whatever else is known. -/
theorem output_cases (out : List UInt8) :
    SaysNothing out ∨ (∃ e, Holds out e) ∨ ∃ f, Rejected out f := by
  cases hd : Utf8.decode? out with
  | error fault =>
    refine Or.inr (Or.inr ⟨.reported (.undecodable fault), fun r hr => ?_, fun e he => ?_⟩)
    · rw [← hr] at hd
      simp only [result, hd]
    · cases he
      exact List.mem_cons_self
  | ok cs =>
    by_cases hne : Blank.trim cs = []
    · exact Or.inl ⟨cs, hd, hne⟩
    cases he : Envelope.read (Blank.trim cs) with
    | ok e => exact Or.inr (Or.inl ⟨e, cs, hd, he⟩)
    | error f =>
      refine Or.inr (Or.inr ⟨f, fun r hr => ?_, fun e hf => ?_⟩)
      · rw [← hr] at hd
        rw [result_of_trim hd hne, he]
        rfl
      · subst hf
        rw [Envelope.kind_of_read he]
        decide

/-! ## What counts -/

theorem verdict_withStatus {e : Envelope} {complaint complaint' : List Char} {status status' : Option Int}
    (h : e.ok = true ∨ e.error ≠ none ∨ complaint = complaint') :
    verdict e complaint' status' = withStatus status' (verdict e complaint status) := by
  unfold verdict
  by_cases hok : e.ok = true
  · rw [if_pos hok, if_pos hok]
    rfl
  rw [if_neg hok, if_neg hok]
  rcases h with h | h | rfl
  · exact absurd h hok
  · cases herror : e.error with
    | none => exact absurd herror h
    | some message => rfl
  · rfl

/-- Where the output stream decides, or the complaints are the same, two replies with the same output stream
differ in the exit status that they hand on. -/
theorem result_of_same_output (h : r.stdout = r'.stdout)
    (hc : (¬ SaysNothing r.stdout ∧ ¬ Unexplained r.stdout) ∨ r.complaint = r'.complaint) :
    r'.result = withStatus r'.status r.result := by
  rcases output_cases r.stdout with hn | ⟨e, he⟩ | ⟨f, hf⟩
  · have hsame : r.complaint = r'.complaint := by
      rcases hc with hc | hc
      · exact absurd hn hc.1
      · exact hc
    rw [result_of_saysNothing hn, result_of_saysNothing (h ▸ hn), hsame]
    split
    · rfl
    · rfl
  · rw [result_of_holds he, result_of_holds (h ▸ he)]
    apply verdict_withStatus
    rcases hc with hc | hc
    · by_cases hok : e.ok = true
      · exact Or.inl hok
      · refine Or.inr (Or.inl fun herror => hc.2 ⟨e, he, by simpa using hok, herror⟩)
    · exact Or.inr (Or.inr hc)
  · rw [hf.1 r rfl, hf.1 r' h.symm, withStatus_of_rejected hf]

/-- An outcome other than a refusal or a lack of output is decided by the output stream. -/
theorem settled_of_result (hv : (∃ v, r.result = .ok v) ∨ ∃ f, r.result = .error f ∧
    ∀ e, f = .reported e → e.kind ∈ rejectedKinds) : ¬ SaysNothing r.stdout ∧ ¬ Unexplained r.stdout := by
  constructor
  · intro hn
    rw [result_of_saysNothing hn] at hv
    rcases hv with ⟨v, hv⟩ | ⟨f, hf, hkind⟩
    · cases hv
    · have := hkind _ (Except.error.inj hf).symm
      split at this
      · exact absurd this (by decide)
      · exact absurd this (by simp [CallError.kind, rejectedKinds])
  · intro hu
    rw [result_of_unexplained hu] at hv
    rcases hv with ⟨v, hv⟩ | ⟨f, hf, hkind⟩
    · cases hv
    · exact absurd (hkind _ (Except.error.inj hf).symm) (by simp [CallError.kind, rejectedKinds])

theorem mem_remarks {action : Text} {debug : Bool} {entry : LogEntry} (h : entry ∈ r.remarks action debug) :
    debug = true ∧ r.complaint ≠ [] ∧ (∃ v, r.result = .ok v) ∧ entry = ⟨LogEntry.debugLevel,
      "bridge " ++ action ++ ": discarded stderr on success: " ++ Text.ofChars r.complaint⟩ := by
  unfold remarks at h
  cases hr : r.result with
  | error f =>
    rw [hr] at h
    cases h
  | ok v =>
    rw [hr] at h
    by_cases hc : r.complaint = []
    · simp [hc] at h
    cases debug with
    | false => simp [hc] at h
    | true =>
      simp only [List.isEmpty_iff, hc, if_false, Log.debug, if_true, List.mem_singleton] at h
      exact ⟨rfl, hc, ⟨v, rfl⟩, h⟩

/-- Two replies with one output stream. A value, or an error about the output, is the same for both. A
refusal with a reason is handed on with it. Only a blank output stream and a refusal without a reason leave
it to the complaint what the outcome is, and whatever else is known of the replies changes no more than the
exit status in a refusal. The action and the switch for debugging are seen in the log only. -/
theorem classify_of_same_output (r r' : Reply) (h : r.stdout = r'.stdout) (action action' : Text)
    (debug debug' : Bool) :
    (∀ v, (r.classify action debug).1 = .ok v → (r'.classify action' debug').1 = .ok v) ∧
    (∀ e, e.kind ∈ [.outputDecode, .envelopeParse] → (r.classify action debug).1 = .error (.reported e) →
      (r'.classify action' debug').1 = .error (.reported e)) ∧
    (∀ l, (r.classify action debug).1 = .error (.limit l) → (r'.classify action' debug').1 = .error (.limit l)) ∧
    (∀ e message, Holds r.stdout e → e.ok = false → e.error = some message →
      (r.classify action debug).1 = .error (.reported (.refused message r.status)) ∧
      (r'.classify action' debug').1 = .error (.reported (.refused message r'.status))) ∧
    (SaysNothing r.stdout → (r.classify action debug).1 =
      .error (.reported (if r.complaint = [] then .silent else .diagnostic r.complaint))) ∧
    (Unexplained r.stdout → (r.classify action debug).1 = .error (.reported (.refused
      (if r.complaint = [] then "Unknown bridge error" else Text.ofChars r.complaint) r.status))) ∧
    ((¬ SaysNothing r.stdout ∧ ¬ Unexplained r.stdout) ∨ r.complaint = r'.complaint →
      (r'.classify action' debug').1 = withStatus r'.status (r.classify action debug).1) ∧
    (∀ entry ∈ (r.classify action debug).2,
      debug = true ∧ r.complaint ≠ [] ∧ (∃ v, (r.classify action debug).1 = .ok v) ∧ entry = ⟨LogEntry.debugLevel,
        "bridge " ++ action ++ ": discarded stderr on success: " ++ Text.ofChars r.complaint⟩) := by
  have hsettled : (∃ v, r.result = .ok v) ∨ (∃ f, r.result = .error f ∧
      ∀ e, f = .reported e → e.kind ∈ rejectedKinds) → r'.result = withStatus r'.status r.result :=
    fun hr => result_of_same_output h (Or.inl (settled_of_result hr))
  refine ⟨?_, ?_, ?_, ?_, result_of_saysNothing, result_of_unexplained, result_of_same_output h,
    fun _ he => mem_remarks he⟩
  · intro v hv
    have hsame := hsettled (Or.inl ⟨v, hv⟩)
    rwa [show r.result = .ok v from hv] at hsame
  · intro e hkind he
    have hsame := hsettled (Or.inr ⟨.reported e, he, fun _ heq => by cases heq; exact hkind⟩)
    have hne : e.kind ≠ .backend := by
      intro hb
      rw [hb] at hkind
      exact absurd hkind (by decide)
    rwa [show r.result = _ from he, withStatus, Failure.map, CallError.withStatus_eq_self hne] at hsame
  · intro l hl
    have hsame := hsettled (Or.inr ⟨.limit l, hl, fun _ heq => by cases heq⟩)
    rwa [show r.result = _ from hl] at hsame
  · intro e message he hok herror
    exact ⟨result_of_refusal he hok herror, result_of_refusal (h ▸ he) hok herror⟩

/-- A refusal whose reason is empty, next to a complaint and next to none. -/
theorem classify_of_same_output_empty_reason :
    (Reply.mk (Utf8.encode "\x7b\"ok\": false, \"error\": \"\"\x7d".toList) (Utf8.encode "late".toList) (some 3)).classify
        "connect" true = (.error (.reported (.refused [] (some 3))), []) ∧
      (Reply.mk (Utf8.encode "\x7b\"ok\": false, \"error\": \"\"\x7d".toList) [] none).classify "status" false =
        (.error (.reported (.refused [] none)), []) := by
  have hout : Holds (Utf8.encode "\x7b\"ok\": false, \"error\": \"\"\x7d".toList) ⟨false, .null, some []⟩ :=
    ⟨"\x7b\"ok\": false, \"error\": \"\"\x7d".toList, by rfl, by rfl⟩
  obtain ⟨-, -, -, hrefused, -⟩ := classify_of_same_output
    ⟨Utf8.encode "\x7b\"ok\": false, \"error\": \"\"\x7d".toList, Utf8.encode "late".toList, some 3⟩
    ⟨Utf8.encode "\x7b\"ok\": false, \"error\": \"\"\x7d".toList, [], none⟩ rfl "connect" "status" true false
  obtain ⟨hlate, hnone⟩ := hrefused ⟨false, .null, some []⟩ [] hout rfl rfl
  exact ⟨Prod.ext hlate rfl, Prod.ext hnone rfl⟩

/-- The error stream makes a difference exactly where the output stream leaves one. -/
theorem depends_iff {out : List UInt8} {status : Option Int} :
    (∃ err err', (Reply.mk out err status).result ≠ (Reply.mk out err' status).result) ↔
      SaysNothing out ∨ Unexplained out := by
  constructor
  · rintro ⟨err, err', hne⟩
    by_contra hn
    have hsettled : ¬ SaysNothing out ∧ ¬ Unexplained out := not_or.mp hn
    have hself : (Reply.mk out err status).result = withStatus status (Reply.mk out err status).result :=
      result_of_same_output rfl (Or.inl hsettled)
    have hother : (Reply.mk out err' status).result = withStatus status (Reply.mk out err status).result :=
      result_of_same_output rfl (Or.inl hsettled)
    exact hne (hself.trans hother.symm)
  · intro h
    have hquiet : (Reply.mk out [] status).complaint = [] := rfl
    have hloud : (Reply.mk out (Utf8.encode ['x']) status).complaint = ['x'] := rfl
    refine ⟨[], Utf8.encode ['x'], ?_⟩
    rcases h with h | h
    · rw [result_of_saysNothing h, result_of_saysNothing h, hquiet, hloud]
      simp
    · rw [result_of_unexplained h, result_of_unexplained h, hquiet, hloud]
      simp [CallError.unknownReason, Text.ofString]

end Reply

end AgentBridge
