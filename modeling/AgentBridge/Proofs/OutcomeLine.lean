import AgentBridge.Proofs.Commands
import AgentBridge.Proofs.Tasks

/-
  AgentBridge.Proofs.OutcomeLine — the line of a command that was asked for JSON.

  Such a command prints one line and nothing else on its output stream, the same one on a
  terminal and elsewhere. The line is read as the outcome of the operation that the task
  comes to, or as the refusal with the very message of the error (`outcome_of_json`). The
  writer joins surrogates that stand next to each other, so this needs that no message has
  two of them that could be joined (`Task.paired_of_fails`): a message is made of characters,
  except for what the backend itself gives as its reason, and that was read from JSON. What
  is true of all such reasons is true of the messages (`Task.Fails.message_has`).
-/

namespace AgentBridge

/-! ## Violations -/

namespace Checked

variable {α β : Type}

theorem seq_eq_error {f : Checked (α → β)} {x : Checked α} {v : Violation} {vs : List Violation}
    (h : f <*> x = .error v vs) : (∃ ws, f = .error v ws) ∨ ∃ ws, x = .error v ws := by
  change seq f x = .error v vs at h
  cases f with
  | error w ws =>
    cases x with
    | ok a =>
      cases h
      exact Or.inl ⟨vs, rfl⟩
    | error w' ws' =>
      cases h
      exact Or.inl ⟨ws, rfl⟩
  | ok g =>
    cases x with
    | ok a => cases h
    | error w ws =>
      cases h
      exact Or.inr ⟨vs, rfl⟩

theorem map_eq_error {f : α → β} {x : Checked α} {v : Violation} {vs : List Violation} (h : f <$> x = .error v vs) :
    ∃ ws, x = .error v ws := by
  change seq (.ok f) x = .error v vs at h
  cases x with
  | ok a => cases h
  | error w ws =>
    cases h
    exact ⟨vs, rfl⟩

end Checked

namespace Shape

variable {α : Type} {m : Members Empty} {key : Text} {rule : Rule α} {v : Violation} {vs : List Violation}

theorem place_of_found {value : Json} (h : found key rule value = .error v vs) : v.place = key := by
  unfold found at h
  split at h
  · cases h
  · cases h
    rfl

theorem place_of_required (h : required m key rule = .error v vs) : v.place = key := by
  unfold required at h
  split at h
  · exact place_of_found h
  · cases h
    rfl

theorem place_of_withDefault {default : α} (h : withDefault m key default rule = .error v vs) : v.place = key := by
  unfold withDefault at h
  split at h
  · exact place_of_found h
  · cases h

end Shape

/-- A violation of an envelope is in one of its fields, or of the whole. -/
theorem Envelope.place_of_ofJson {j : Json} {v : Violation} {vs : List Violation} (h : ofJson j = .error v vs) :
    ∃ name : String, v.place = Text.ofString name := by
  cases j with
  | object m =>
    rcases Checked.seq_eq_error h with ⟨ws, hfront⟩ | ⟨ws, herror⟩
    · rcases Checked.seq_eq_error hfront with ⟨ws, hok⟩ | ⟨ws, hdata⟩
      · obtain ⟨ws, hok⟩ := Checked.map_eq_error hok
        exact ⟨"ok", Shape.place_of_required hok⟩
      · exact ⟨"data", Shape.place_of_withDefault hdata⟩
    · exact ⟨"error", Shape.place_of_withDefault herror⟩
  | _ =>
    cases h
    exact ⟨"", rfl⟩

/-! ## Messages -/

namespace Text

/-- A property that texts have behind characters if they have it by themselves. -/
structure KeptBehind (P : Text → Prop) : Prop where
  nil : P []
  behind (cs : List Char) {t : Text} : P t → P (ofChars cs ++ t)

namespace KeptBehind

theorem paired : KeptBehind Paired := ⟨trivial, fun _ _ ht => paired_ofChars_append _ ht⟩

theorem ofCharacters : KeptBehind OfCharacters := ⟨ofCharacters_nil, fun cs _ ht => (ofCharacters_ofChars cs).append ht⟩

variable {P : Text → Prop}

theorem ofChars (hP : KeptBehind P) (cs : List Char) : P (Text.ofChars cs) := by
  have h := hP.behind cs hP.nil
  rwa [List.append_nil] at h

theorem ofString (hP : KeptBehind P) (s : String) : P (Text.ofString s) := hP.ofChars s.toList

end KeptBehind

end Text

variable {P : Text → Prop}

theorem StartFailure.message_has (hP : Text.KeptBehind P) (f : StartFailure) : P f.message := by
  apply hP.behind
  cases f.file with
  | some file => exact hP.ofChars _
  | none => exact hP.nil

namespace CallError

/-- What an error quotes has a property: the action, or the message of the backend. The place of a violation is the
name of a field. -/
def Quotes (P : Text → Prop) : CallError → Prop
  | .expired _ action => P action
  | .notEnvelope v => ∃ name : String, v.place = Text.ofString name
  | .refused message _ => P message
  | _ => True

/-- Whatever is quoted stands at the end of the message. -/
theorem Quotes.message_has (hP : Text.KeptBehind P) {e : CallError} (h : e.Quotes P) : P e.message := by
  cases e with
  | notStarted f => exact hP.behind _ (f.message_has hP)
  | expired deadline action =>
    simp only [message, List.append_assoc]
    exact hP.behind _ (hP.behind _ (hP.behind _ h))
  | diagnostic complaint => exact hP.ofChars complaint
  | notEnvelope v =>
    obtain ⟨name, hplace⟩ := h
    apply hP.behind
    unfold Violation.describe
    split
    · exact hP.ofString _
    · rw [hplace]
      exact hP.behind _ (hP.ofString _)
  | refused message status => exact h
  | unwritable e | undecodable f | silent | notJson f place => exact hP.ofString _

end CallError

theorem Envelope.quotes_of_read {cs : List Char} {e : CallError} (h : Envelope.read cs = .error (.reported e)) :
    e.Quotes P := by
  unfold Envelope.read at h
  split at h
  · cases h
    trivial
  · cases h
  · split at h
    · cases h
    · rename_i hcheck
      cases h
      exact Envelope.place_of_ofJson hcheck

/-- The message of an envelope in the output has a property. -/
def Reply.Quotes (P : Text → Prop) (r : Reply) : Prop :=
  ∀ out e message, Utf8.decode? r.stdout = .ok out → Envelope.read (Blank.trim out) = .ok e →
    e.error = some message → P message

theorem Reply.quotes_paired (r : Reply) : r.Quotes Text.Paired :=
  fun _ _ _ _ hread herror => Envelope.paired_error hread herror

theorem Reply.quotes_of_result (hP : Text.KeptBehind P) {r : Reply} {e : CallError} (hr : r.Quotes P)
    (h : r.result = .error (.reported e)) : e.Quotes P := by
  unfold result at h
  split at h
  · cases h
    trivial
  · rename_i out hdecode
    dsimp only at h
    split at h
    · split at h
      · cases h
        trivial
      · cases h
        trivial
    · rcases bind_eq_error.mp h with hread | ⟨envelope, hread, hverdict⟩
      · exact Envelope.quotes_of_read hread
      · unfold verdict at hverdict
        split at hverdict
        · cases hverdict
        · cases hverdict
          cases herror : envelope.error with
          | some message => exact hr out envelope message hdecode hread herror
          | none =>
            dsimp only [CallError.Quotes]
            split
            · exact hP.ofString _
            · exact hP.ofChars _

/-- Whatever processes write, the messages of their envelopes have a property. -/
def Runner.Quotes (P : Text → Prop) (runner : Runner) : Prop :=
  ∀ spawn status stdout stderr, runner spawn = .exited status stdout stderr →
    (Config.reply status stdout stderr).Quotes P

theorem Config.quotes_of_call (hP : Text.KeptBehind P) {c : Config} {debug : Bool} {runner : Runner} {call : Call}
    {e : CallError} (hr : Runner.Quotes P runner) (ha : P call.action)
    (h : (c.call debug runner call).result = .error (.reported e)) : e.Quotes P := by
  unfold Config.call at h
  split at h
  · rename_i hargv
    cases h
    rcases bind_eq_error.mp hargv with hencode | ⟨t, -, hpure⟩
    · unfold Payload.encode at hencode
      split at hencode
      · cases hencode
      · cases hencode
        trivial
    · cases hpure
  · rename_i argv hargv
    dsimp only at h
    cases hrun : runner ⟨argv, c.deadline⟩ with
    | expired =>
      rw [hrun] at h
      cases h
      exact ha
    | notStarted f =>
      rw [hrun] at h
      cases h
      trivial
    | exited status stdout stderr =>
      rw [hrun] at h
      exact Reply.quotes_of_result hP (hr _ _ _ _ hrun) h

/-- The message of an operation that was given arguments of the right shape ends with what its call quotes. -/
theorem Operation.message_has (hP : Text.KeptBehind P) {op : Operation} {args : Members Empty} {c : Config}
    {debug : Bool} {runner : Runner} {e : OperationError} (hr : Runner.Quotes P runner) (hs : op.Shaped args)
    (h : (op.run c debug runner args).result = .error (.reported e)) : P e.message := by
  rw [result_run (pack_of_shaped hs)] at h
  cases hcall : (c.call debug runner ⟨op.action, .ofJson (.object (op.wire args))⟩).result with
  | ok v =>
    rw [hcall] at h
    cases h
  | error f =>
    rw [hcall] at h
    cases f with
    | limit l => cases h
    | reported e' =>
      cases h
      exact (Config.quotes_of_call hP hr (hP.ofString _) hcall).message_has hP

namespace CommandLine

theorem DisguiseError.ofCharacters_message (e : DisguiseError) : e.message.OfCharacters := by
  cases e with
  | notOneSource | notObject => exact Text.ofCharacters_ofString _
  | notDomain | malformed f place => simp [message]

theorem ofCharacters_rejection (rejected : List (List Char × LinkError)) : (rejection rejected).OfCharacters := by
  unfold rejection
  split
  · exact Text.ofCharacters_ofString _
  · exact Text.ofCharacters_ofString _

/-- The reason why a task comes to no operation is made of characters. -/
theorem Task.ofCharacters_of_refused {task : Task} {message : Text} (h : task.request = .error (.reported message)) :
    message.OfCharacters := by
  cases task with
  | openLink urls =>
    simp only [request] at h
    split at h
    · cases h
    · cases h
      exact ofCharacters_rejection _
  | updateDisguise baseUrl serverId adminApiKey sources =>
    simp only [request] at h
    split at h
    · cases h
    · cases h
      exact DisguiseError.ofCharacters_message _
    · cases h
  | _ => cases h

/-- The message that a task fails with has what the messages of envelopes have. -/
theorem Task.Fails.message_has (hP : Text.KeptBehind P) {w : World} {task : Task} {message : Text}
    (hr : Runner.Quotes P w.runner) (h : task.Fails w message) : P message := by
  cases h with
  | operation hrequest hresult => exact Operation.message_has hP hr (Task.shaped_of_request hrequest) hresult
  | refused hrequest =>
    obtain ⟨cs, rfl⟩ := Task.ofCharacters_of_refused hrequest
    exact hP.ofChars cs

/-- No surrogates could be joined in the message that a task fails with. -/
theorem Task.paired_of_fails {w : World} {task : Task} {message : Text} (h : task.Fails w message) :
    message.Paired := h.message_has .paired fun _ _ _ _ _ => Reply.quotes_paired _

/-! ## Lines -/

/-- A run prints one line on its output stream, on a terminal and elsewhere, and ends with an exit status. The line
is read as a value. -/
def Run.Says (r : Run) (status : Nat) (v : Json) : Prop :=
  ∃ line, '\n' ∉ line ∧ Json.read line = .ok v ∧
    ∀ terminal, (r.finish terminal).output = line ++ ['\n'] ∧ (r.finish terminal).status = .ok status

theorem Run.Says.after {r : Run} {status : Nat} {v : Json} (h : r.Says status v) (log : List LogEntry)
    (spawns : List Spawn) : (r.after (logged log) spawns).Says status v := by
  obtain ⟨line, hbreak, hread, hfinish⟩ := h
  refine ⟨line, hbreak, hread, fun terminal => ?_⟩
  rw [Run.finish_after]
  exact hfinish terminal

theorem Run.says_json {status : Nat} {v told : Json} {t : List Char} (h : Json.write v = .ok t)
    (hread : Json.read t = .ok told) : (Run.json status v).Says status told := by
  refine ⟨t, fun hmem => ?_, hread, fun terminal => Run.finish_json terminal h⟩
  have hprinted := (Json.printable_writeAt rfl _ h '\n' hmem).1
  exact absurd hprinted (by decide)

/-- A failure says its message. -/
theorem Run.says_failed {message : Text} (h : message.Paired) :
    (Run.failed true message).Says 1 (Envelope.refusal message) := by
  obtain ⟨t, ht⟩ := Envelope.exists_write_refusal message
  have hread := Json.read_of_told ht (Envelope.depth_refusal_le message)
  rw [Envelope.told_refusal, Text.pair_eq_self h] at hread
  exact Run.says_json ht hread

/-- The value of an operation says itself. -/
theorem Run.says_outcome {w : World} {op : Operation} {args : Members Empty} {v : Json}
    (h : (w.perform op args).result = .ok v) : (Run.json 0 (Run.outcome v)).Says 0 (Run.outcome v) := by
  obtain ⟨t, ht, hread⟩ := Json.exists_write (Run.readable_outcome (Operation.readable_of_run h)) .oneLine
  exact Run.says_json ht hread

/-- A task that was asked for JSON says the value of its operation or the message that it fails with, or it is
cut short. -/
theorem Task.says_run (w : World) (task : Task) :
    (∃ v, task.Gives w v ∧ (task.run w true).Says 0 (Run.outcome v)) ∨
      (∃ message, task.Fails w message ∧ (task.run w true).Says 1 (Envelope.refusal message)) ∨
      ∃ f, (task.run w true).status = .error f := by
  have hends := task.ends_run w true
  generalize task.run w true = r at hends ⊢
  cases hends with
  | @gives op args v hrequest hresult =>
    exact Or.inl ⟨v, ⟨op, args, hrequest, hresult⟩, (Run.says_outcome hresult).after _ _⟩
  | fails hrequest hresult =>
    have hfails : task.Fails w _ := .operation hrequest hresult
    exact Or.inr (Or.inl ⟨_, hfails, (Run.says_failed (Task.paired_of_fails hfails)).after _ _⟩)
  | refused hrequest =>
    have hfails : task.Fails w _ := .refused hrequest
    exact Or.inr (Or.inl ⟨_, hfails, Run.says_failed (Task.paired_of_fails hfails)⟩)
  | limit l _ => exact Or.inr (Or.inr ⟨.limit l, rfl⟩)
  | fatal f => exact Or.inr (Or.inr ⟨f, rfl⟩)

/-- A command line that asks for a task and for JSON, and that is not cut short, prints one line on its output
stream, the same on a terminal and elsewhere. Its exit status is zero if the line is read as an outcome with the
value of the task, or one if it is read as a refusal with the message that the task fails with. -/
theorem outcome_of_json {w : World} {arguments : List (List Char)} {task : Task}
    (h : invocation w.env w.files arguments = .ok (.task task true)) {terminal : Bool} {status : Nat}
    (hs : ((run w arguments).finish terminal).status = .ok status) :
    ∃ line, '\n' ∉ line ∧ (∀ other, ((run w arguments).finish other).output = line ++ ['\n']) ∧
      ((status = 0 ∧ ∃ v, task.Gives w v ∧
          Json.read line = .ok (.object [("ok", .bool true), ("data", v)])) ∨
        (status = 1 ∧ ∃ message, task.Fails w message ∧
          Json.read line = .ok (.object [("ok", .bool false), ("error", .str message)]))) := by
  rw [CommandLine.run_eq, h] at hs ⊢
  change ((Run.after _ _ (task.run w true)).finish terminal).status = _ at hs
  rcases Task.says_run w task with ⟨v, hgives, hsays⟩ | ⟨message, hfails, hsays⟩ | ⟨f, hfatal⟩
  · obtain ⟨line, hbreak, hread, hfinish⟩ := hsays.after (remarks w.env.debug arguments) []
    refine ⟨line, hbreak, fun other => (hfinish other).1, Or.inl ⟨?_, v, hgives, hread⟩⟩
    exact (Except.ok.inj ((hfinish terminal).2.symm.trans hs)).symm
  · obtain ⟨line, hbreak, hread, hfinish⟩ := hsays.after (remarks w.env.debug arguments) []
    refine ⟨line, hbreak, fun other => (hfinish other).1, Or.inr ⟨?_, message, hfails, hread⟩⟩
    exact (Except.ok.inj ((hfinish terminal).2.symm.trans hs)).symm
  · obtain ⟨f', hcut⟩ := Run.finish_of_error terminal hfatal
    rw [Run.finish_after, hcut] at hs
    cases hs

/-- A reason with an escape sequence, a line feed, a quotation mark and half of a pair of surrogates. -/
theorem outcome_of_json_escape :
    ∃ line, (∀ terminal, ((run ⟨⟨[("XRAY_DESKTOP_DEBUG", "1")]⟩, "/opt", fun _ => none, fun _ => .exited 3
          (some (Utf8.encode "\x7b\"ok\": false, \"error\": \"\\u001b[1m\\n\\\"\\ud83d\"\x7d".toList)) none⟩
        ["up".toList, "--json".toList]).finish terminal).output = line ++ ['\n']) ∧
      Json.read line = .ok (.object [("ok", .bool false),
        ("error", .str (Text.ofString "\x1b[1m\n\"" ++ [.high 61]))]) := by
  let w : World := ⟨⟨[("XRAY_DESKTOP_DEBUG", "1")]⟩, "/opt", fun _ => none, fun _ => .exited 3
    (some (Utf8.encode "\x7b\"ok\": false, \"error\": \"\\u001b[1m\\n\\\"\\ud83d\"\x7d".toList)) none⟩
  have hasked : invocation w.env w.files ["up".toList, "--json".toList] = .ok (.task .connect true) := by rfl
  have hresult : (w.perform .connect []).result =
      .error (.reported (.call (.refused (Text.ofString "\x1b[1m\n\"" ++ [.high 61]) (some 3)))) := by rfl
  have hstatus : ((run w ["up".toList, "--json".toList]).finish false).status = .ok 1 := by
    rw [CommandLine.run_eq, hasked, Run.finish_after]
    change ((operate w .connect [] true (Run.succeeded "Connect")).finish false).status = _
    rw [operate_of_reported hresult, Run.finish_after]
    rfl
  obtain ⟨line, -, houtput, ⟨hzero, -⟩ | ⟨-, message, hfails, hread⟩⟩ := outcome_of_json hasked hstatus
  · cases hzero
  · refine ⟨line, houtput, ?_⟩
    cases hfails with
    | refused hrequest => cases hrequest
    | operation hrequest hfailed =>
      cases hrequest
      rw [hresult] at hfailed
      cases hfailed
      exact hread

end CommandLine

end AgentBridge
