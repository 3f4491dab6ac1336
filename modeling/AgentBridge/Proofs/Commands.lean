import AgentBridge.CommandLine.Run
import AgentBridge.Proofs.Calls
import AgentBridge.Proofs.RoundTrip
import AgentBridge.Proofs.Shapes
import AgentBridge.Proofs.Standard

/-
  AgentBridge.Proofs.Commands — what a command prints as JSON.

  The value of an operation comes from an envelope, so it has a JSON text with room for the
  brackets of another object around it (`Operation.readable_of_run`). A command that was asked
  for JSON prints one line with the outcome of its operation or with a refusal, or it is cut
  short and prints nothing (`Task.told`).
-/

namespace AgentBridge

/-! ## The value of an operation -/

/-- The data of an envelope leaves room for one more bracket. -/
theorem Envelope.readable_data {cs : List Char} {e : Envelope} (h : Envelope.read cs = .ok e) :
    Json.Readable (Json.nestingLimit - 1) e.data := by
  obtain ⟨m, hread, hheld⟩ := Envelope.exists_members h
  rw [← hheld.data]
  cases hget : m.get? "data" with
  | none => exact .null
  | some v =>
    cases Json.readable_of_read hread with
    | object _ _ hall => exact hall _ (Members.mem_of_get? hget)

/-- No two surrogates could be joined in the message of an envelope. -/
theorem Envelope.paired_error {cs : List Char} {e : Envelope} {message : Text} (h : Envelope.read cs = .ok e)
    (he : e.error = some message) : message.Paired := by
  obtain ⟨m, hread, hheld⟩ := Envelope.exists_members h
  have hget := hheld.get?_error he
  cases Json.readable_of_read hread with
  | object _ _ hall =>
    cases hall _ (Members.mem_of_get? hget) with
    | str hpaired => exact hpaired

/-- The value of a call comes from a process that has succeeded. -/
theorem Config.exists_succeeds {c : Config} {debug : Bool} {runner : Runner} {call : Call} {v : Json}
    (h : (c.call debug runner call).result = .ok v) : ∃ spawn, (runner spawn).Succeeds v := by
  unfold Config.call at h
  cases hargv : c.argv call with
  | error e =>
    rw [hargv] at h
    cases h
  | ok argv =>
    rw [hargv] at h
    exact ⟨_, Config.settle_eq_ok_iff.mp h⟩

/-- The value of an operation comes from a process that has succeeded, or is nothing. -/
theorem Operation.null_or_succeeds {op : Operation} {c : Config} {debug : Bool} {runner : Runner} {args : Members Empty}
    {v : Json} (h : (op.run c debug runner args).result = .ok v) : v = .null ∨ ∃ spawn, (runner spawn).Succeeds v := by
  unfold Operation.run at h
  cases hpack : op.pack args with
  | error e =>
    rw [hpack] at h
    cases h
  | ok payload =>
    rw [hpack] at h
    dsimp only at h
    split at h
    · rename_i data hcall
      obtain rfl := Except.ok.inj h
      rcases op.handOn_cases data with hnull | hdata
      · exact Or.inl hnull
      · rw [hdata]
        exact Or.inr (Config.exists_succeeds hcall)
    · cases h

theorem Operation.readable_of_run {op : Operation} {c : Config} {debug : Bool} {runner : Runner} {args : Members Empty}
    {v : Json} (h : (op.run c debug runner args).result = .ok v) : Json.Readable (Json.nestingLimit - 1) v := by
  rcases Operation.null_or_succeeds h with rfl | ⟨_, _, _, _, _, e, -, -, he, -, rfl⟩
  · exact .null
  · exact Envelope.readable_data he

/-! ## Texts -/

theorem Envelope.exists_write_refusal (message : Text) : ∃ t, Json.write (Envelope.refusal message) = .ok t := ⟨_, rfl⟩

theorem Envelope.finite_refusal {F : Type} (message : Text) : (Envelope.refusal message : Value F).Finite := by
  simp [Value.Finite, Envelope.refusal, Value.floats, Value.floatsOfMembers]

namespace Json

/-- No escape sequence begins in what is written. -/
theorem not_mem_of_writeAt {F : Type} {s : Style F} {level : Nat} {v : Value F} {t : List Char}
    (h : writeAt s level v = .ok t) : '\x1b' ∉ t := by
  intro hescape
  rcases printedIn_writeAt v h _ hescape with ⟨hprinted, -⟩ | hbreak
  · exact absurd hprinted (by decide)
  · cases hlayout : s.layout with
    | oneLine =>
      rw [hlayout] at hbreak
      cases hbreak
    | indented width =>
      rw [hlayout] at hbreak
      exact absurd (List.mem_singleton.mp hbreak) (by decide)

/-- A value that a text can hold is written in any layout, and read back. -/
theorem exists_write {v : Json} (h : Readable nestingLimit v) (l : Layout) :
    ∃ t, writeAt { plain with layout := l } 0 v = .ok t ∧ read t = .ok v := by
  obtain ⟨t, ht, hread⟩ := read_of_writeAt (s := { plain with layout := l }) 0 h (by simp [plain])
  rw [Value.ofJson_self] at ht
  exact ⟨t, ht, hread⟩

end Json

/-- A status that is no object is shown as a text over several lines. -/
theorem StatusPage.lines_of_not_object (env : Environment) {v : Json} (h : ∀ status, v ≠ .object status) :
    StatusPage.lines env v = (Json.writeIndented v).map fun text => [Text.ofChars text] := by
  rw [StatusPage.lines]
  · cases Json.writeIndented v with
    | error e => rfl
    | ok text => rfl
  · exact h

/-! ## Streams -/

namespace Text

/-- A text is made of characters: it has no surrogates. -/
def OfCharacters (t : Text) : Prop := ∃ cs, t = ofChars cs

@[simp] theorem ofCharacters_nil : OfCharacters [] := ⟨[], rfl⟩

@[simp] theorem ofCharacters_ofChars (cs : List Char) : (ofChars cs).OfCharacters := ⟨cs, rfl⟩

@[simp] theorem ofCharacters_ofString (s : String) : (ofString s).OfCharacters := ⟨s.toList, rfl⟩

theorem OfCharacters.append {t t' : Text} (h : t.OfCharacters) (h' : t'.OfCharacters) : (t ++ t').OfCharacters := by
  obtain ⟨cs, rfl⟩ := h
  obtain ⟨cs', rfl⟩ := h'
  exact ⟨cs ++ cs', (ofChars_append cs cs').symm⟩

theorem OfCharacters.sublist {t t' : Text} (h : t.OfCharacters) (hsub : t'.Sublist t) : t'.OfCharacters := by
  obtain ⟨cs, rfl⟩ := h
  obtain ⟨cs', -, hcs'⟩ := List.sublist_map_iff.mp hsub
  exact ⟨cs', hcs'⟩

@[simp] theorem ofCharacters_append_iff {t t' : Text} :
    OfCharacters (t ++ t') ↔ t.OfCharacters ∧ t'.OfCharacters := by
  constructor
  · intro h
    exact ⟨h.sublist (List.sublist_append_left t t'), h.sublist (List.sublist_append_right t t')⟩
  · intro h
    exact h.1.append h.2

theorem OfCharacters.paired {t : Text} (h : t.OfCharacters) : t.Paired := by
  obtain ⟨cs, rfl⟩ := h
  exact paired_ofChars cs

end Text

/-- What some log entries put on the error stream; one that cannot be written puts nothing there. -/
def Log.shown (log : List LogEntry) : List Char :=
  log.flatMap fun entry => (Utf8.characters entry.line).toOption.getD []

namespace Terminal

/-- Code points are taken out, and nothing else is changed. -/
theorem plain_sublist (t : Text) : (plain t).Sublist t := by
  unfold plain
  generalize 0 = skip
  induction t generalizing skip with
  | nil => cases skip <;> exact List.nil_sublist _
  | cons c rest ih =>
    cases skip with
    | succ skip => exact (ih skip).cons c
    | zero =>
      rw [plainFrom]
      split
      · exact (ih 0).cons_cons c
      · exact (ih _).cons c

variable (terminal : Bool)

/-- A line that is made of characters can be written. -/
theorem exists_characters_lineOn {t : Text} (h : t.OfCharacters) :
    ∃ shown, Utf8.characters (lineOn terminal t) = .ok shown := by
  have hseen : (if terminal then t else plain t).OfCharacters := by
    split
    · exact h
    · exact h.sublist (plain_sublist t)
  obtain ⟨shown, hshown⟩ := hseen.append (Text.ofCharacters_ofString "\n")
  refine ⟨shown, ?_⟩
  have hline : lineOn terminal t = Text.ofChars shown := hshown
  rw [hline, Utf8.characters_ofChars]

/-- A line of characters without escape sequences is printed as it is. -/
theorem write_result {line : List Char} (h : '\x1b' ∉ line) :
    write terminal [.result (Text.ofChars line)] = ⟨line ++ ['\n'], [], none⟩ := by
  have hplain : plain (Text.ofChars line) = Text.ofChars line := by
    apply plain_of_not_mem
    intro hmem
    obtain ⟨c, hc, heq⟩ := List.mem_map.mp hmem
    obtain rfl := CodePoint.char.inj heq
    exact h hc
  have htext : textOn terminal (.result (Text.ofChars line)) = Text.ofChars (line ++ ['\n']) := by
    rw [textOn, lineOn, hplain, ite_self, Text.ofChars_append]
    rfl
  have hchars : Utf8.characters (textOn terminal (.result (Text.ofChars line))) = .ok (line ++ ['\n']) := by
    rw [htext, Utf8.characters_ofChars]
  simp only [write, hchars, Streams.after, List.append_nil]

/-- Log entries go to the error stream, and leave what is written behind them as it is. -/
theorem write_logged (log : List LogEntry) (items : List Printed) :
    write terminal (CommandLine.logged log ++ items) = ⟨(write terminal items).output,
      Log.shown log ++ (write terminal items).errors, (write terminal items).fault⟩ := by
  induction log with
  | nil => rfl
  | cons entry log ih =>
    have hcons : CommandLine.logged (entry :: log) ++ items = .log entry :: (CommandLine.logged log ++ items) := rfl
    rw [hcons, Log.shown, List.flatMap_cons]
    cases hchars : Utf8.characters entry.line with
    | ok written =>
      simp only [write, textOn, hchars, ih, Streams.after, List.append_assoc]
      rfl
    | error s =>
      simp only [write, textOn, hchars, ih]
      rfl

/-- Results do not go to the error stream. -/
theorem errors_write_results (results : List Text) : (write terminal (results.map .result)).errors = [] := by
  induction results with
  | nil => rfl
  | cons line results ih =>
    cases hchars : Utf8.characters (lineOn terminal line) with
    | ok written => simp only [List.map_cons, write, textOn, hchars, Streams.after, ih]
    | error s => simp only [List.map_cons, write, textOn, hchars]

end Terminal

/-! ## Runs -/

namespace CommandLine

variable (terminal : Bool)

/-- What was logged and started before is seen before, and changes nothing else. -/
theorem Run.finish_after (log : List LogEntry) (spawns : List Spawn) (r : Run) :
    (r.after (logged log) spawns).finish terminal = ⟨(r.finish terminal).status, (r.finish terminal).output,
      Log.shown log ++ (r.finish terminal).errors, spawns ++ (r.finish terminal).spawns⟩ := by
  simp only [Run.finish, Run.after, Terminal.write_logged]

/-- A run that is cut short is seen to be cut short. -/
theorem Run.finish_of_error {r : Run} {f : Fatal} (h : r.status = .error f) :
    ∃ f', (r.finish terminal).status = .error f' := by
  dsimp only [Run.finish]
  split
  · exact ⟨_, rfl⟩
  · exact ⟨f, h⟩

theorem Run.finish_result {line : List Char} (h : '\x1b' ∉ line) (status : Except Fatal Nat) :
    (Run.finish terminal ⟨status, [.result (Text.ofChars line)], []⟩).output = line ++ ['\n'] ∧
      (Run.finish terminal ⟨status, [.result (Text.ofChars line)], []⟩).status = status := by
  rw [Run.finish, Terminal.write_result terminal h]
  exact ⟨rfl, rfl⟩

theorem Run.finish_json {status : Nat} {v : Json} {t : List Char} (h : Json.write v = .ok t) :
    ((Run.json status v).finish terminal).output = t ++ ['\n'] ∧
      ((Run.json status v).finish terminal).status = .ok status := by
  rw [Run.json, h]
  exact Run.finish_result terminal (Json.not_mem_of_writeAt h) (.ok status)

/-! ## Outcomes as JSON -/

theorem Run.finite_outcome {v : Json} : (Run.outcome v).Finite ↔ v.Finite := by
  simp [Value.Finite, Run.outcome, Value.floats, Value.floatsOfMembers]

/-- There is room for an outcome around the value of an operation. -/
theorem Run.readable_outcome {v : Json} (h : Json.Readable (Json.nestingLimit - 1) v) :
    Json.Readable Json.nestingLimit (Run.outcome v) := by
  have hlimit : Json.nestingLimit - 1 + 1 = Json.nestingLimit := rfl
  have hok : Json.Readable (Json.nestingLimit - 1) (.bool true) := .bool true
  have hkeys : [Text.ofString "ok", Text.ofString "data"].Nodup := by decide
  rw [← hlimit]
  exact .object hkeys (by simp [Text.paired_ofString]) (by simpa using ⟨hok, h⟩)

/-- What is seen of a command that was asked for JSON: the outcome of an operation, a refusal, or nothing. The outcome
is a standard text exactly if its value is finite. -/
inductive Told (w : World) (f : Finish) : Prop
  | outcome {op : Operation} {args : Members Empty} {v : Json} {t : List Char} :
    (op.run (Config.ofEnvironment w.directory w.env) w.env.debug w.runner args).result = .ok v →
    f.status = .ok 0 → f.output = t ++ ['\n'] → Json.read t = .ok (Run.outcome v) → (Json.Standard t ↔ v.Finite) →
    Told w f
  | refusal {message : Text} {t : List Char} :
    f.status = .ok 1 → f.output = t ++ ['\n'] → Json.read t = .ok (Envelope.refusal message) → Json.Standard t →
    Told w f
  | nothing {e : Fatal} : f.status = .error e → f.output = [] → Told w f

variable {w : World}

theorem Told.after {r : Run} (h : Told w (r.finish terminal)) (log : List LogEntry) (spawns : List Spawn) :
    Told w ((r.after (logged log) spawns).finish terminal) := by
  rw [Run.finish_after]
  rcases h with ⟨hv, hs, ho, hread, hstandard⟩ | ⟨hs, ho, hread, hstandard⟩ | ⟨hs, ho⟩
  · exact .outcome hv hs ho hread hstandard
  · exact .refusal hs ho hread hstandard
  · exact .nothing hs ho

theorem told_failed (message : Text) : Told w ((Run.failed true message).finish terminal) := by
  obtain ⟨t, ht⟩ := Envelope.exists_write_refusal message
  obtain ⟨houtput, hstatus⟩ := Run.finish_json terminal ht
  have hread := Json.read_of_told ht (Envelope.depth_refusal_le message)
  rw [Envelope.told_refusal] at hread
  exact .refusal hstatus houtput hread ((Json.standard_iff ht).mpr (Envelope.finite_refusal message))

/-- An operation is told with its outcome or a refusal, if no limit of the reader is exceeded. -/
theorem told_operate (op : Operation) (args : Members Empty) (present : Json → Run) :
    Told w ((operate w op args true present).finish terminal) := by
  cases hresult : (op.run (Config.ofEnvironment w.directory w.env) w.env.debug w.runner args).result with
  | ok v =>
    obtain ⟨t, ht, hread⟩ := Json.exists_write (Run.readable_outcome (Operation.readable_of_run hresult)) .oneLine
    obtain ⟨houtput, hstatus⟩ := Run.finish_json terminal ht
    have htold : Told w ((Run.json 0 (Run.outcome v)).finish terminal) :=
      .outcome hresult hstatus houtput hread ((Json.standard_iff ht).trans Run.finite_outcome)
    simp only [operate, hresult, if_true]
    exact htold.after terminal _ _
  | error f =>
    rcases f with e | l
    · simp only [operate, hresult]
      exact (told_failed terminal e.message).after terminal _ _
    · have hnothing : Told w (Run.finish terminal ⟨.error (.limit l), [], []⟩) := .nothing rfl rfl
      have hcut := hnothing.after terminal
        (op.run (Config.ofEnvironment w.directory w.env) w.env.debug w.runner args).log
        (op.run (Config.ofEnvironment w.directory w.env) w.env.debug w.runner args).spawns
      simp only [Run.after, List.append_nil] at hcut
      simpa only [operate, hresult] using hcut

/-- A command that was asked for JSON tells an outcome, a refusal, or nothing. -/
theorem told_run (task : Task) : Told w ((task.run w true).finish terminal) := by
  cases task with
  | connect | disconnect | status | setMode mode => exact told_operate terminal _ _ _
  | importToken baseUrl token => exact told_operate terminal _ _ _
  | openLink urls =>
    show Told w ((runLinks w urls true).finish terminal)
    unfold runLinks
    split
    · exact told_failed terminal _
    · exact (told_operate terminal _ _ _).after terminal _ _
  | updateDisguise baseUrl serverId adminApiKey sources =>
    show Told w ((runDisguise w baseUrl serverId adminApiKey sources true).finish terminal)
    unfold runDisguise
    split
    · exact told_failed terminal _
    · exact .nothing rfl rfl
    · exact told_operate terminal _ _ _

/-! ## Values over several lines -/

/-- A value that a text can hold is printed over several lines. -/
theorem Run.finish_indented {v : Json} (h : Json.Readable Json.nestingLimit v) :
    ∃ t, Json.writeIndented v = .ok t ∧ Json.read t = .ok v ∧
      ((Run.lines ((Json.writeIndented v).map fun text => [Text.ofChars text])).finish terminal).output = t ++ ['\n'] ∧
      ((Run.lines ((Json.writeIndented v).map fun text => [Text.ofChars text])).finish terminal).status = .ok 0 := by
  obtain ⟨t, ht, hread⟩ := Json.exists_write h (.indented 2)
  have hwrite : Json.writeIndented v = .ok t := ht
  rw [hwrite]
  exact ⟨t, rfl, hread, Run.finish_result terminal (Json.not_mem_of_writeAt ht) (.ok 0)⟩

/-- A value other than null is presented as a JSON text. -/
theorem Run.succeeded_of_ne_null (label : String) {v : Json} (h : v ≠ .null) :
    Run.succeeded label v = Run.lines ((Json.writeIndented v).map fun text => [Text.ofChars text]) := by
  unfold Run.succeeded
  split
  · exact absurd rfl h
  · rfl

/-- The value of an operation is printed over several lines where it is presented as a JSON text. -/
theorem output_of_present {op : Operation} {args : Members Empty} {v : Json} {present : Json → Run}
    (h : (op.run (Config.ofEnvironment w.directory w.env) w.env.debug w.runner args).result = .ok v)
    (hp : present v = Run.lines ((Json.writeIndented v).map fun text => [Text.ofChars text])) :
    ∃ t, ((operate w op args false present).finish terminal).output = t ++ ['\n'] ∧
      ((operate w op args false present).finish terminal).status = .ok 0 ∧
      Json.read t = .ok v ∧ (Json.Standard t ↔ v.Finite) := by
  obtain ⟨t, ht, hread, houtput, hstatus⟩ :=
    Run.finish_indented terminal ((Operation.readable_of_run h).mono (Nat.sub_le _ 1))
  simp only [operate, h, Bool.false_eq_true, if_false, hp]
  rw [Run.finish_after]
  exact ⟨t, houtput, hstatus, hread, Json.standard_iff ht⟩

end CommandLine

end AgentBridge
