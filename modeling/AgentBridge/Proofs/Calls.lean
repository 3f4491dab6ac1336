import AgentBridge.Proofs.Failures

/-
  AgentBridge.Proofs.Calls — what a call starts, and when it gives a value.

  A call whose payload has a text starts one process with that text at the end of its command
  line, and what comes back depends on how this process ends (`call_of_encode`); without a text
  nothing is started (`call_of_unwritable`). A process succeeds when it has written an envelope
  that says so, and exactly then the call gives a value, the one in the envelope
  (`settle_eq_ok_iff`).
-/

namespace AgentBridge

/-! ## Replies with a value -/

theorem Reply.verdict_eq_ok_iff {e : Envelope} {complaint : List Char} {status : Option Int} {v : Json} :
    verdict e complaint status = .ok v ↔ e.ok = true ∧ e.data = v := by
  unfold verdict
  by_cases hok : e.ok = true
  · rw [if_pos hok]
    simp [hok]
  · rw [if_neg hok]
    simp [hok]

theorem Reply.result_eq_ok_iff {r : Reply} {v : Json} :
    r.result = .ok v ↔ ∃ out e, Utf8.decode? r.stdout = .ok out ∧ Envelope.read (Blank.trim out) = .ok e ∧
      e.ok = true ∧ e.data = v := by
  constructor
  · intro h
    cases hd : Utf8.decode? r.stdout with
    | error f =>
      simp only [result, hd] at h
      cases h
    | ok out =>
      by_cases hne : Blank.trim out = []
      · simp only [result, hd, hne, List.isEmpty_nil, if_true] at h
        split at h
        · cases h
        · cases h
      · rw [result_of_trim hd hne] at h
        obtain ⟨e, he, hv⟩ := bind_eq_ok.mp h
        exact ⟨out, e, rfl, he, verdict_eq_ok_iff.mp hv⟩
  · intro h
    obtain ⟨out, e, hd, he, hv⟩ := h
    rw [result_of_read hd he]
    exact verdict_eq_ok_iff.mpr hv

/-! ## Processes that succeed -/

/-- A process has ended and has written an envelope of success, with a value. -/
def Outcome.Succeeds (o : Outcome) (v : Json) : Prop :=
  ∃ status stdout stderr out e, o = .exited status stdout stderr ∧ Utf8.decode? (stdout.getD []) = .ok out ∧
    Envelope.read (Blank.trim out) = .ok e ∧ e.ok = true ∧ e.data = v

namespace Config

variable {c : Config} {debug : Bool}

/-- A call gives the value of a process that succeeds, and no other value. -/
theorem settle_eq_ok_iff {action : Text} {o : Outcome} {v : Json} :
    (c.settle debug action o).1 = .ok v ↔ o.Succeeds v := by
  cases o with
  | expired => simp [settle, Outcome.Succeeds]
  | notStarted f => simp [settle, Outcome.Succeeds]
  | exited status stdout stderr =>
    refine Reply.result_eq_ok_iff.trans ⟨?_, ?_⟩
    · intro h
      obtain ⟨out, e, hd, he, hv⟩ := h
      exact ⟨status, stdout, stderr, out, e, rfl, hd, he, hv⟩
    · intro h
      obtain ⟨_, _, _, out, e, ho, hd, he, hv⟩ := h
      cases ho
      exact ⟨out, e, hd, he, hv⟩

/-! ## Command lines -/

theorem argv_of_encode {call : Call} {t : List Char} (h : call.payload.encode = .ok t) :
    c.argv call = .ok [c.program, c.script, call.action, Text.ofChars t] := by
  rw [argv, h]
  rfl

variable (c debug)

/-- A call is settled by how the process ends that its command line starts. -/
theorem call_of_argv {call : Call} {argv : List Text} (h : c.argv call = .ok argv) (run : Runner) :
    c.call debug run call = ⟨(c.settle debug call.action (run ⟨argv, c.deadline⟩)).1,
      Log.debug debug ("bridge " ++ call.action ++ ": " ++ c.program ++ " " ++ c.script) ++
        (c.settle debug call.action (run ⟨argv, c.deadline⟩)).2, [⟨argv, c.deadline⟩]⟩ := by
  unfold Config.call
  rw [h]

/-- With the payload as text, one process is started, and how it ends decides the answer. -/
theorem call_of_encode (run : Runner) (action : Text) {payload : Payload} {t : List Char}
    (h : payload.encode = .ok t) :
    (c.call debug run ⟨action, payload⟩).spawns = [⟨[c.program, c.script, action, Text.ofChars t], c.deadline⟩] ∧
    (c.call debug run ⟨action, payload⟩).result =
      (c.settle debug action (run ⟨[c.program, c.script, action, Text.ofChars t], c.deadline⟩)).1 := by
  rw [call_of_argv c debug (argv_of_encode h)]
  exact ⟨rfl, rfl⟩

/-- Nothing is started for a payload that has no text. -/
theorem call_of_unwritable (run : Runner) (action : Text) {payload : Payload} {e : CallError}
    (h : payload.encode = .error e) : c.call debug run ⟨action, payload⟩ = ⟨.error (.reported e), [], []⟩ := by
  unfold Config.call argv
  rw [h]
  rfl

end Config

end AgentBridge
