import AgentBridge.Proofs.Influence
import AgentBridge.Proofs.OutcomeLine

/-
  AgentBridge.Proofs.ExitStatus — exit status, processes and reports of a command line agree.

  An operation starts at most one process, and it gives a value exactly if this process has
  answered (`Operation.started_cases`). A run ends in one of three ways (`Ended`): well, with
  nothing reported; badly, with the one report of a failure; or it is cut short. Behind a
  command line that is not cut short the exit status says which of the first two it was, and
  so whether the process has answered (`status_agrees`). Two runs may also be compared by what
  they start and how they end, whatever they print (`EndAlike`).
-/

namespace AgentBridge

/-! ## Processes -/

/-- A process has ended, and its reply carries a value. -/
def Outcome.Answers (o : Outcome) : Prop :=
  ∃ status stdout stderr v, o = .exited status stdout stderr ∧ (Config.reply status stdout stderr).result = .ok v

theorem Config.settle_answers {c : Config} {debug : Bool} {action : Text} {o : Outcome} :
    (∃ v, (c.settle debug action o).1 = .ok v) ↔ o.Answers := by
  cases o with
  | expired => simp [settle, Outcome.Answers]
  | notStarted f => simp [settle, Outcome.Answers]
  | exited status stdout stderr =>
    constructor
    · intro h
      obtain ⟨v, hv⟩ := h
      exact ⟨status, stdout, stderr, v, rfl, hv⟩
    · intro h
      obtain ⟨_, _, _, v, ho, hv⟩ := h
      cases ho
      exact ⟨v, hv⟩

/-- A call starts nothing and fails, or it starts one process and gives a value if that answers. -/
theorem Config.call_cases (c : Config) (debug : Bool) (runner : Runner) (call : Call) :
    ((c.call debug runner call).spawns = [] ∧ ∃ e, (c.call debug runner call).result = .error (.reported e)) ∨
      ∃ spawn, (c.call debug runner call).spawns = [spawn] ∧
        ((∃ v, (c.call debug runner call).result = .ok v) ↔ (runner spawn).Answers) := by
  unfold Config.call
  cases c.argv call with
  | error e => exact Or.inl ⟨rfl, e, rfl⟩
  | ok argv => exact Or.inr ⟨⟨argv, c.deadline⟩, rfl, Config.settle_answers⟩

theorem Operation.started_cases (op : Operation) (c : Config) (debug : Bool) (runner : Runner) (args : Members Empty) :
    ((op.run c debug runner args).spawns = [] ∧ ∃ e, (op.run c debug runner args).result = .error (.reported e)) ∨
      ∃ spawn, (op.run c debug runner args).spawns = [spawn] ∧
        ((∃ v, (op.run c debug runner args).result = .ok v) ↔ (runner spawn).Answers) := by
  cases hpack : op.pack args with
  | error e =>
    unfold run
    rw [hpack]
    exact Or.inl ⟨rfl, _, rfl⟩
  | ok payload =>
    rw [spawns_run hpack, result_run hpack]
    rcases Config.call_cases c debug runner ⟨op.action, .ofJson payload⟩ with ⟨hspawns, e, he⟩ | ⟨spawn, hspawns, hiff⟩
    · rw [he]
      exact Or.inl ⟨hspawns, _, rfl⟩
    · refine Or.inr ⟨spawn, hspawns, Iff.trans ?_ hiff⟩
      cases (c.call debug runner ⟨op.action, .ofJson payload⟩).result with
      | ok v => exact ⟨fun _ => ⟨v, rfl⟩, fun _ => ⟨_, rfl⟩⟩
      | error f =>
        constructor
        · intro h
          obtain ⟨v, hv⟩ := h
          cases hv
        · intro h
          obtain ⟨v, hv⟩ := h
          cases hv

/-! ## Log entries -/

/-- An entry is a remark for debugging or a warning, and no error. -/
def LogEntry.Harmless (entry : LogEntry) : Prop :=
  entry.level = debugLevel ∨ entry.level = warningLevel

theorem Log.level_debug {on : Bool} {text : Text} : ∀ entry ∈ debug on text, entry.level = LogEntry.debugLevel := by
  intro entry h
  cases on with
  | false => cases h
  | true =>
    obtain rfl := List.mem_singleton.mp h
    rfl

theorem Config.level_settle {c : Config} {debug : Bool} {action : Text} {o : Outcome} :
    ∀ entry ∈ (c.settle debug action o).2, entry.level = LogEntry.debugLevel := by
  cases o with
  | expired => exact List.forall_mem_nil _
  | notStarted f => exact List.forall_mem_nil _
  | exited status stdout stderr =>
    refine List.forall_mem_append.mpr ⟨Log.level_debug, fun entry h => ?_⟩
    obtain ⟨-, -, -, rfl⟩ := Reply.mem_remarks h
    rfl

/-- An operation logs remarks for debugging only. -/
theorem Operation.level_run {op : Operation} {c : Config} {debug : Bool} {runner : Runner} {args : Members Empty} :
    ∀ entry ∈ (op.run c debug runner args).log, entry.level = LogEntry.debugLevel := by
  have hcall : ∀ call, ∀ entry ∈ (c.call debug runner call).log, entry.level = LogEntry.debugLevel := by
    intro call
    unfold Config.call
    split
    · exact List.forall_mem_nil _
    · exact List.forall_mem_append.mpr ⟨Log.level_debug, Config.level_settle⟩
  unfold run
  split
  · exact List.forall_mem_nil _
  · dsimp only
    split
    · exact hcall _
    · exact hcall _

theorem LogEntry.harmless_of_debug {log : List LogEntry} (h : ∀ entry ∈ log, entry.level = debugLevel) :
    ∀ entry ∈ log, entry.Harmless := fun entry hentry => Or.inl (h entry hentry)

namespace CommandLine

theorem harmless_remarks {debug : Bool} {arguments : List (List Char)} :
    ∀ entry ∈ remarks debug arguments, entry.Harmless := by
  unfold remarks aliasRemarks
  split
  · split
    · exact LogEntry.harmless_of_debug Log.level_debug
    · exact List.forall_mem_nil _
  · exact List.forall_mem_nil _

theorem Task.harmless_warnings {task : Task} : ∀ entry ∈ task.warnings, entry.Harmless := by
  cases task with
  | openLink urls =>
    simp only [warnings]
    split
    · intro entry h
      obtain ⟨_, -, rfl⟩ := List.mem_map.mp h
      exact Or.inr rfl
    · exact List.forall_mem_nil _
  | _ => exact List.forall_mem_nil _

/-! ## Operations of tasks -/

section

variable {w : World} {op : Operation} {args : Members Empty}

theorem World.spawns_perform_le : (w.perform op args).spawns.length ≤ 1 := by
  rcases op.started_cases (Config.ofEnvironment w.directory w.env) w.env.debug w.runner args with
    ⟨hspawns, -⟩ | ⟨spawn, hspawns, -⟩
  · rw [perform, hspawns]
    exact Nat.zero_le 1
  · rw [perform, hspawns]
    exact Nat.le_refl 1

/-- The process of an operation has answered exactly if the operation gives a value. -/
theorem World.answers_perform {spawn : Spawn} (h : spawn ∈ (w.perform op args).spawns) :
    (∃ v, (w.perform op args).result = .ok v) ↔ (w.runner spawn).Answers := by
  unfold perform at h ⊢
  rcases op.started_cases (Config.ofEnvironment w.directory w.env) w.env.debug w.runner args with
    ⟨hspawns, -⟩ | ⟨started, hspawns, hiff⟩
  · rw [hspawns] at h
    cases h
  · rw [hspawns] at h
    obtain rfl := List.mem_singleton.mp h
    exact hiff

/-- A task with a value does not fail. -/
theorem Task.Gives.not_fails {task : Task} {v : Json} (h : task.Gives w v) (message : Text) :
    ¬ task.Fails w message := by
  obtain ⟨op, args, hrequest, hresult⟩ := h
  intro hfails
  cases hfails with
  | refused hrefused =>
    rw [hrequest] at hrefused
    cases hrefused
  | operation hrequest' hfailed =>
    rw [hrequest] at hrequest'
    cases hrequest'
    rw [hresult] at hfailed
    cases hfailed

end

/-! ## Endings -/

/-- How a run ends, where it may fail with some messages: well, with nothing reported and only processes that have
answered; badly, with one report of a failure and only processes that have not; or it is cut short. -/
inductive Ended (w : World) (fails : Text → Prop) : Run → Prop
  | well {log : List LogEntry} {spawns : List Spawn} {results : List Text} :
    (∀ entry ∈ log, entry.Harmless) → spawns.length ≤ 1 → (∀ spawn ∈ spawns, (w.runner spawn).Answers) →
    (∀ message, ¬ fails message) →
    Ended w fails ((Run.mk (.ok 0) (results.map .result) []).after (logged log) spawns)
  | badly {log : List LogEntry} {spawns : List Spawn} {asJson : Bool} {message : Text} :
    (∀ entry ∈ log, entry.Harmless) → spawns.length ≤ 1 → (∀ spawn ∈ spawns, ¬ (w.runner spawn).Answers) →
    fails message → (asJson = true → message.Paired) →
    Ended w fails ((Run.failed asJson message).after (logged log) spawns)
  | cut {r : Run} {f : Fatal} : r.status = .error f → r.spawns.length ≤ 1 → Ended w fails r

section

variable {w : World} {fails fails' : Text → Prop} {r : Run}

theorem Ended.congr (h : Ended w fails r) (hiff : ∀ message, fails message ↔ fails' message) : Ended w fails' r := by
  cases h with
  | well hlog hspawns hanswers hnone =>
    exact .well hlog hspawns hanswers fun message hfails => hnone message ((hiff message).mpr hfails)
  | badly hlog hspawns hanswers hfails hpaired =>
    exact .badly hlog hspawns hanswers ((hiff _).mp hfails) hpaired
  | cut hstatus hspawns => exact .cut hstatus hspawns

/-- Remarks and warnings in front do not change how a run ends. -/
theorem Ended.after (h : Ended w fails r) {log : List LogEntry} (hlog : ∀ entry ∈ log, entry.Harmless) :
    Ended w fails (r.after (logged log) []) := by
  cases h with
  | well hlog' hspawns hanswers hnone =>
    rw [Run.after_after]
    exact .well (List.forall_mem_append.mpr ⟨hlog, hlog'⟩) hspawns hanswers hnone
  | badly hlog' hspawns hanswers hfails hpaired =>
    rw [Run.after_after]
    exact .badly (List.forall_mem_append.mpr ⟨hlog, hlog'⟩) hspawns hanswers hfails hpaired
  | cut hstatus hspawns => exact .cut hstatus hspawns

/-- A run that presents something ends well, unless it is cut short. -/
theorem Run.Presents.ended (h : r.Presents) {log : List LogEntry} {spawns : List Spawn}
    (hlog : ∀ entry ∈ log, entry.Harmless) (hspawns : spawns.length ≤ 1)
    (hanswers : ∀ spawn ∈ spawns, (w.runner spawn).Answers) (hnone : ∀ message, ¬ fails message) :
    Ended w fails (r.after (logged log) spawns) := by
  rcases h with ⟨results, rfl⟩ | ⟨f, rfl⟩
  · exact .well hlog hspawns hanswers hnone
  · exact .cut rfl (by simpa [Run.after] using hspawns)

/-- A failure for which nothing was started ends badly. -/
theorem ended_failed {asJson : Bool} {message : Text} (h : fails message) (hpaired : asJson = true → message.Paired) :
    Ended w fails (Run.failed asJson message) := by
  rw [← Run.after_nil (Run.failed asJson message)]
  exact .badly (List.forall_mem_nil _) (Nat.zero_le 1) (List.forall_mem_nil _) h hpaired

end

/-- A task ends well if its operation gives a value, and badly if it fails. -/
theorem Task.ended_run (w : World) (asJson : Bool) (task : Task) : Ended w (task.Fails w) (task.run w asJson) := by
  have hlog : ∀ op args, ∀ entry ∈ task.warnings ++ (w.perform op args).log, entry.Harmless := fun _ _ =>
    List.forall_mem_append.mpr ⟨task.harmless_warnings, LogEntry.harmless_of_debug Operation.level_run⟩
  have hends := task.ends_run w asJson
  generalize task.run w asJson = r at hends ⊢
  cases hends with
  | @gives op args v hrequest hresult =>
    refine (Run.presents_told (task.presents_present w.env v)).ended (hlog op args) World.spawns_perform_le ?_
      (Task.Gives.not_fails ⟨op, args, hrequest, hresult⟩)
    intro spawn hspawn
    exact (World.answers_perform hspawn).mp ⟨v, hresult⟩
  | @fails op args e remark hrequest hresult =>
    -- An operation that has failed has no process that has answered.
    have hfails : task.Fails w e.message := .operation hrequest hresult
    rw [← List.append_assoc]
    refine .badly (List.forall_mem_append.mpr ⟨hlog op args, LogEntry.harmless_of_debug Log.level_debug⟩)
      World.spawns_perform_le ?_ hfails fun _ => Task.paired_of_fails hfails
    intro spawn hspawn hanswers
    obtain ⟨v, hv⟩ := (World.answers_perform hspawn).mpr hanswers
    rw [hresult] at hv
    cases hv
  | refused hrequest =>
    have hfails : task.Fails w _ := .refused hrequest
    exact ended_failed hfails fun _ => Task.paired_of_fails hfails
  | limit l _ => exact .cut rfl World.spawns_perform_le
  | fatal f => exact .cut rfl (Nat.zero_le 1)

/-! ## What is reported -/

/-- A command line fails with a message: that of its own fault, or that of the task it asks for. -/
inductive Fails (w : World) (arguments : List (List Char)) : Text → Prop
  | usage {e : UsageError} : invocation w.env w.files arguments = .error e → Fails w arguments e.message
  | task {task : Task} {asJson : Bool} {message : Text} :
    invocation w.env w.files arguments = .ok (.task task asJson) → task.Fails w message → Fails w arguments message

/-- A command line is rejected as such, or its disguise or its links are. -/
def Rejected (w : World) (arguments : List (List Char)) : Prop :=
  (∃ e, invocation w.env w.files arguments = .error e) ∨
    ∃ task asJson reason, invocation w.env w.files arguments = .ok (.task task asJson) ∧ task.request = .error reason

/-- A command line that asks for no task and has no fault does not fail. -/
theorem not_fails_of_invocation {w : World} {arguments : List (List Char)} {i : Invocation}
    (h : invocation w.env w.files arguments = .ok i) (hi : ∀ task asJson, i ≠ .task task asJson) (message : Text) :
    ¬ Fails w arguments message := by
  intro hfails
  cases hfails with
  | usage herror =>
    rw [h] at herror
    cases herror
  | task hasked _ =>
    rw [h] at hasked
    exact hi _ _ (Except.ok.inj hasked)

/-- Every command line ends well or badly, or is cut short. -/
theorem ended_run (w : World) (arguments : List (List Char)) : Ended w (Fails w arguments) (run w arguments) := by
  rw [CommandLine.run_eq]
  refine Ended.after ?_ harmless_remarks
  have hpage : ∀ text, (∀ message, ¬ Fails w arguments message) → Ended w (Fails w arguments) (Run.page text) := by
    intro text hnone
    rw [← Run.after_nil (Run.page text)]
    exact (Run.presents_page text).ended (List.forall_mem_nil _) (Nat.zero_le 1) (List.forall_mem_nil _) hnone
  cases hasked : invocation w.env w.files arguments with
  | error e =>
    have hfails : Fails w arguments e.message := .usage hasked
    have hline : Ended w (Fails w arguments) (Run.failed false e.message) := ended_failed hfails (fun h => nomatch h)
    cases e with
    | noPath o path => exact .cut rfl (Nat.zero_le 1)
    | _ => exact hline
  | ok i =>
    cases i with
    | help command =>
      have hnone := not_fails_of_invocation hasked (fun _ _ h => nomatch h)
      cases command with
      | none => exact hpage _ hnone
      | some c => exact hpage _ hnone
    | version => exact hpage _ (not_fails_of_invocation hasked (fun _ _ h => nomatch h))
    | task task asJson =>
      refine (Task.ended_run w asJson task).congr fun message => ⟨.task hasked, fun hfails => ?_⟩
      cases hfails with
      | usage herror =>
        rw [hasked] at herror
        cases herror
      | task hasked' htask =>
        rw [hasked] at hasked'
        cases hasked'
        exact htask

/-- Nothing is started for a command line that is rejected. -/
theorem spawns_of_rejected {w : World} {arguments : List (List Char)} (h : Rejected w arguments) :
    (run w arguments).spawns = [] := by
  rw [CommandLine.run_eq]
  rcases h with ⟨e, he⟩ | ⟨task, asJson, reason, hasked, hreason⟩
  · rw [he]
    exact spawns_usage w e
  · rw [hasked]
    change (Run.after _ _ (task.run w asJson)).spawns = []
    rw [Task.run_eq, hreason]
    cases reason with
    | fatal f => rfl
    | reported message => exact Run.spawns_failed asJson message

/-! ## What is seen -/

/-- Nothing is reported: the error stream has remarks and warnings only. -/
def Finish.Quiet (f : Finish) : Prop :=
  ∃ log : List LogEntry, (∀ entry ∈ log, entry.Harmless) ∧ f.errors = Log.shown log

/-- A failure is reported once: behind remarks and warnings as a line on the error stream, with nothing on the output
stream, or else as one object on the output stream. -/
inductive Finish.Reports (terminal : Bool) (message : Text) (f : Finish) : Prop
  | line {log : List LogEntry} {shown : List Char} : (∀ entry ∈ log, entry.Harmless) → f.output = [] →
    Utf8.characters (Terminal.lineOn terminal ("Error: " ++ message)) = .ok shown → f.errors = Log.shown log ++ shown →
    Reports terminal message f
  | object {line : List Char} : f.output = line ++ ['\n'] → '\n' ∉ line →
    Json.read line = .ok (.object [("ok", .bool false), ("error", .str message)]) → f.Quiet →
    Reports terminal message f

theorem Run.errors_json (terminal : Bool) (status : Nat) (v : Json) :
    ((Run.json status v).finish terminal).errors = [] := by
  unfold Run.json
  split
  · rename_i line _
    exact Terminal.errors_write_results terminal [Text.ofChars line]
  · rfl

/-- A failure is reported by itself, unless it cannot be written. -/
theorem Run.reports_failed {terminal asJson : Bool} {message : Text} {status : Nat}
    (hpaired : asJson = true → message.Paired)
    (h : ((Run.failed asJson message).finish terminal).status = .ok status) :
    status = 1 ∧ ((Run.failed asJson message).finish terminal).Reports terminal message := by
  cases asJson with
  | true =>
    obtain ⟨line, hbreak, hread, hfinish⟩ := Run.says_failed (hpaired rfl)
    obtain ⟨houtput, hstatus⟩ := hfinish terminal
    rw [hstatus] at h
    refine ⟨(Except.ok.inj h).symm, .object houtput hbreak hread ⟨[], List.forall_mem_nil _, ?_⟩⟩
    exact Run.errors_json terminal 1 (Envelope.refusal message)
  | false =>
    rw [Run.failed_false, Run.finish] at h ⊢
    cases hchars : Utf8.characters (Terminal.lineOn terminal ("Error: " ++ message)) with
    | ok shown =>
      simp only [Terminal.write, Terminal.textOn, hchars, Terminal.Streams.after, List.append_nil] at h ⊢
      exact ⟨(Except.ok.inj h).symm, .line (List.forall_mem_nil _) rfl hchars rfl⟩
    | error s =>
      simp only [Terminal.write, Terminal.textOn, hchars] at h
      cases h

/-- A failure whose message is made of characters can be written. -/
theorem Run.reports_of_characters {message : Text} (h : message.OfCharacters) (terminal asJson : Bool) :
    ((Run.failed asJson message).finish terminal).status = .ok 1 ∧
      ((Run.failed asJson message).finish terminal).Reports terminal message := by
  have hstatus : ((Run.failed asJson message).finish terminal).status = .ok 1 := by
    cases asJson with
    | true =>
      obtain ⟨_, -, -, hfinish⟩ := Run.says_failed h.paired
      exact (hfinish terminal).2
    | false =>
      have hline := (Text.ofCharacters_ofString "Error: ").append h
      obtain ⟨shown, hshown⟩ := Terminal.exists_characters_lineOn terminal hline
      simp only [Run.failed_false, Run.finish, Terminal.write, Terminal.textOn, hshown, Terminal.Streams.after]
  exact ⟨hstatus, (Run.reports_failed (fun _ => h.paired) hstatus).2⟩

section

variable {terminal : Bool} {r : Run} {log : List LogEntry}

/-- Remarks and warnings in front report nothing. -/
theorem Finish.Quiet.behind (h : (r.finish terminal).Quiet) (hlog : ∀ entry ∈ log, entry.Harmless)
    (spawns : List Spawn) : ((r.after (logged log) spawns).finish terminal).Quiet := by
  obtain ⟨log', hlog', herrors⟩ := h
  refine ⟨log ++ log', List.forall_mem_append.mpr ⟨hlog, hlog'⟩, ?_⟩
  rw [Run.finish_after, herrors, Log.shown, Log.shown, Log.shown, List.flatMap_append]

/-- Behind remarks and warnings a report is still the only one. -/
theorem Finish.Reports.behind {message : Text} (h : (r.finish terminal).Reports terminal message)
    (hlog : ∀ entry ∈ log, entry.Harmless) (spawns : List Spawn) :
    ((r.after (logged log) spawns).finish terminal).Reports terminal message := by
  cases h with
  | object houtput hbreak hread hquiet =>
    have houtput' : ((r.after (logged log) spawns).finish terminal).output = (r.finish terminal).output := by
      rw [Run.finish_after]
    exact .object (houtput'.trans houtput) hbreak hread (hquiet.behind hlog spawns)
  | line hlog' houtput hchars herrors =>
    rw [Run.finish_after, herrors]
    refine .line (List.forall_mem_append.mpr ⟨hlog, hlog'⟩) houtput hchars ?_
    rw [Log.shown, Log.shown, Log.shown, List.flatMap_append, List.append_assoc]

end

/-! ## Runs that end in the same way -/

/-- Two runs start the same processes and end in the same way. -/
structure EndAlike (terminal : Bool) (r r' : Run) : Prop where
  status : (r.finish terminal).status = (r'.finish terminal).status
  spawns : r.spawns = r'.spawns

theorem EndAlike.refl (terminal : Bool) (r : Run) : EndAlike terminal r r := ⟨rfl, rfl⟩

/-- What was logged and started before changes nothing about it. -/
theorem EndAlike.after {terminal : Bool} {r r' : Run} (h : EndAlike terminal r r') (log log' : List LogEntry)
    (spawns : List Spawn) : EndAlike terminal (r.after (logged log) spawns) (r'.after (logged log') spawns) := by
  refine ⟨?_, congrArg (spawns ++ ·) h.spawns⟩
  rw [Run.finish_after, Run.finish_after]
  exact h.status

/-- Failures end in the same way, whatever they say and wherever they are reported. -/
theorem EndAlike.failed {message message' : Text} (h : message.OfCharacters) (h' : message'.OfCharacters)
    (terminal asJson asJson' : Bool) :
    EndAlike terminal (Run.failed asJson message) (Run.failed asJson' message') := by
  obtain ⟨hstatus, -⟩ := Run.reports_of_characters h terminal asJson
  obtain ⟨hstatus', -⟩ := Run.reports_of_characters h' terminal asJson'
  refine ⟨hstatus.trans hstatus'.symm, ?_⟩
  rw [Run.spawns_failed, Run.spawns_failed]

/-! ## What is seen of a command line -/

/-- What is seen of a run agrees with how it ends. -/
theorem Ended.agrees {w : World} {fails : Text → Prop} {r : Run} (h : Ended w fails r) {terminal : Bool} {status : Nat}
    (hs : (r.finish terminal).status = .ok status) :
    (status = 0 ∧ (∀ spawn ∈ r.spawns, (w.runner spawn).Answers) ∧ (r.finish terminal).Quiet ∧
        ∀ message, ¬ fails message) ∨
      (status = 1 ∧ (∀ spawn ∈ r.spawns, ¬ (w.runner spawn).Answers) ∧
        ∃ message, fails message ∧ (r.finish terminal).Reports terminal message) := by
  cases h with
  | @well log spawns results hlog _ hanswers hnone =>
    have hstatus : status = 0 := by
      rw [Run.finish_after, Run.finish] at hs
      dsimp only at hs
      split at hs
      · cases hs
      · exact (Except.ok.inj hs).symm
    have hquiet : ((Run.mk (.ok 0) (results.map .result) []).finish terminal).Quiet :=
      ⟨[], List.forall_mem_nil _, Terminal.errors_write_results terminal results⟩
    refine Or.inl ⟨hstatus, ?_, hquiet.behind hlog spawns, hnone⟩
    intro spawn hspawn
    exact hanswers spawn (by simpa [Run.after] using hspawn)
  | @badly log spawns asJson message hlog _ hanswers hfails hpaired =>
    rw [Run.finish_after] at hs
    obtain ⟨hstatus, hreports⟩ := Run.reports_failed hpaired hs
    refine Or.inr ⟨hstatus, ?_, message, hfails, hreports.behind hlog spawns⟩
    intro spawn hspawn
    exact hanswers spawn (by simpa [Run.after] using hspawn)
  | cut hstatus _ =>
    obtain ⟨f, hcut⟩ := Run.finish_of_error terminal hstatus
    rw [hcut] at hs
    cases hs

theorem Ended.spawns_le {w : World} {fails : Text → Prop} {r : Run} (h : Ended w fails r) : r.spawns.length ≤ 1 := by
  cases h with
  | well _ hspawns _ _ => simpa [Run.after] using hspawns
  | badly _ hspawns _ _ _ => simpa [Run.after] using hspawns
  | cut _ hspawns => exact hspawns

/-- Every command line starts at most one process, and none if it is rejected. If it is not cut short, its exit status
is zero or one: zero exactly if the process that it has started has answered, with no report of a failure, and one if
it fails, with one report of the message that it fails with. -/
theorem status_agrees (w : World) (arguments : List (List Char)) (terminal : Bool) :
    ((run w arguments).finish terminal).spawns.length ≤ 1 ∧
    (Rejected w arguments → ((run w arguments).finish terminal).spawns = []) ∧
    ∀ status, ((run w arguments).finish terminal).status = .ok status →
      (status = 0 ∨ status = 1) ∧
      (∀ spawn ∈ ((run w arguments).finish terminal).spawns, status = 0 ↔ (w.runner spawn).Answers) ∧
      (status = 0 → ((run w arguments).finish terminal).Quiet ∧ ∀ message, ¬ Fails w arguments message) ∧
      (status = 1 → ∃ message, Fails w arguments message ∧
        ((run w arguments).finish terminal).Reports terminal message) := by
  have hended := ended_run w arguments
  refine ⟨hended.spawns_le, spawns_of_rejected, ?_⟩
  intro status hs
  rcases hended.agrees hs with ⟨rfl, hanswers, hquiet, hnone⟩ | ⟨rfl, hanswers, hreports⟩
  · refine ⟨Or.inl rfl, fun spawn hspawn => ?_, fun _ => ⟨hquiet, hnone⟩, (fun h => nomatch h)⟩
    exact ⟨fun _ => hanswers spawn hspawn, fun _ => rfl⟩
  · refine ⟨Or.inr rfl, fun spawn hspawn => ?_, (fun h => nomatch h), fun _ => hreports⟩
    exact ⟨(fun h => nomatch h), fun h => absurd h (hanswers spawn hspawn)⟩

/-- A refusal that is reported for people, with debugging on and a complaint beside it. -/
theorem status_agrees_refused :
    ∃ f spawn, f = (run ⟨⟨[("XRAY_DESKTOP_DEBUG", "1")]⟩, "/opt", fun _ => none, fun _ => .exited 0
        (some (Utf8.encode "\x7b\"ok\": false, \"error\": \"busy\"\x7d".toList)) (some (Utf8.encode "late".toList))⟩
        ["down".toList]).finish false ∧
      f.status = .ok 1 ∧ f.spawns = [spawn] ∧ Finish.Reports false (Text.ofString "busy") f := by
  let w : World := ⟨⟨[("XRAY_DESKTOP_DEBUG", "1")]⟩, "/opt", fun _ => none, fun _ => .exited 0
    (some (Utf8.encode "\x7b\"ok\": false, \"error\": \"busy\"\x7d".toList)) (some (Utf8.encode "late".toList))⟩
  have hasked : invocation w.env w.files ["down".toList] = .ok (.task .disconnect false) := by rfl
  have hresult : (w.perform .disconnect []).result =
      .error (.reported (.call (.refused (Text.ofString "busy") (some 0)))) := by rfl
  have hstatus : ((run w ["down".toList]).finish false).status = .ok 1 := by
    rw [CommandLine.run_eq, hasked, Run.finish_after]
    change ((operate w .disconnect [] false (Run.succeeded "Disconnect")).finish false).status = _
    rw [operate_of_reported hresult, Run.finish_after]
    rfl
  obtain ⟨-, -, hended⟩ := status_agrees w ["down".toList] false
  obtain ⟨-, -, -, hreported⟩ := hended 1 hstatus
  obtain ⟨message, hfails, hreports⟩ := hreported rfl
  have hmessage : message = Text.ofString "busy" := by
    cases hfails with
    | usage herror =>
      rw [hasked] at herror
      cases herror
    | task hasked' htask =>
      rw [hasked] at hasked'
      cases hasked'
      cases htask with
      | refused hrequest => cases hrequest
      | operation hrequest hfailed =>
        cases hrequest
        rw [hresult] at hfailed
        cases hfailed
        rfl
  rw [hmessage] at hreports
  exact ⟨_, _, rfl, hstatus, rfl, hreports⟩

end CommandLine

end AgentBridge
