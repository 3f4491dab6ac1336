import AgentBridge.Proofs.ExitStatus

/-
  AgentBridge.Proofs.Disguises — what becomes of a command that applies a disguise.

  With a backend that answers, such a command starts its process or reports one failure, with
  one exception: it is cut short where its disguise cannot be read at all, because a file is no
  text or a text exceeds a limit of the reader, or where no file can be looked up under a path
  (`DisguiseCut`). Nothing is started or said then (`run_updateDisguise_cut_iff`).

  Everything else is reported, and can be: the messages about a command line, a disguise and a
  payload are all made of characters.
-/

namespace AgentBridge

/-! ## Messages -/

theorem Text.ofCharacters_joinWith {separator : Text} (hs : separator.OfCharacters) :
    ∀ parts : List Text, (∀ part ∈ parts, part.OfCharacters) → Text.OfCharacters (joinWith separator parts)
  | [], _ => ofCharacters_nil
  | [part], h => h part (List.mem_singleton_self part)
  | part :: next :: rest, h => by
    have hrest := ofCharacters_joinWith hs (next :: rest) fun p hp => h p (List.mem_cons_of_mem part hp)
    exact ((h part List.mem_cons_self).append hs).append hrest

namespace CommandLine

/-- The message about a command line is made of characters, whatever was typed. -/
theorem UsageError.ofCharacters_message (e : UsageError) : e.message.OfCharacters := by
  have hword : ∀ cs, (quotedWord cs).OfCharacters := fun cs => Text.ofCharacters_ofChars _
  have hname : ∀ name, (inQuotes name).OfCharacters := fun name => Text.ofCharacters_ofString _
  have hlist : ∀ {α : Type} (separator : String) (f : α → Text) (xs : List α), (∀ x, (f x).OfCharacters) →
      Text.OfCharacters (joinWith separator (xs.map f)) := by
    intro α separator f xs h
    apply Text.ofCharacters_joinWith (Text.ofCharacters_ofString separator)
    rw [List.forall_mem_map]
    intro x _
    exact h x
  cases e with
  | noSuchOption typed similar =>
    have hnames := hlist ", " inQuotes similar hname
    have hhint : (hint similar).OfCharacters := by
      unfold hint
      split
      · exact Text.ofCharacters_nil
      · simp [hname]
      · simp [hnames]
    simp [message, hword, hhint]
  | missingArgument p =>
    have hmodes :=
      hlist ",\n\t" (fun m : Mode => Text.ofString m.name) Mode.all fun m => Text.ofCharacters_ofString m.name
    have hchoices : (choices p).OfCharacters := by
      cases p with
      | mode => simp [choices, hmodes]
      | urls => exact Text.ofCharacters_nil
    simp [message, hname, hchoices]
  | noSuchMode typed =>
    have hmodes := hlist ", " (fun m : Mode => inQuotes m.name) Mode.all fun m => hname m.name
    simp [message, hname, hword, hmodes]
  | extraArguments arguments =>
    have hrest := hlist " " Text.ofChars arguments Text.ofCharacters_ofChars
    simp only [message, Text.ofCharacters_append_iff, hrest, Text.ofCharacters_ofString, and_true]
    split
    · exact Text.ofCharacters_ofString _
    · exact Text.ofCharacters_ofString _
  | _ => simp [message, hname, hword]

/-! ## Disguises that cannot be read -/

theorem disguiseOfText_eq_fatal_iff {text : List Char} {f : Fatal} :
    disguiseOfText text = .error (.fatal f) ↔ ∃ l, Json.Exceeds text l ∧ f = .limit l := by
  constructor
  · intro h
    unfold disguiseOfText at h
    split at h
    · cases h
    · cases h
    · cases h
    · rename_i l hread
      cases h
      exact ⟨l, Json.read_eq_limit_iff.mp hread, rfl⟩
  · intro h
    obtain ⟨l, hexceeds, rfl⟩ := h
    rw [disguiseOfText, Json.read_eq_limit_iff.mpr hexceeds]

/-- What cuts the reading of a disguise short. -/
inductive DisguiseSources.Cuts : DisguiseSources → Fatal → Prop
  | text {text : List Char} {l : Json.Limit} : Json.Exceeds text l → Cuts ⟨none, some text, none⟩ (.limit l)
  | file {bytes : List UInt8} {text : List Char} {l : Json.Limit} : Utf8.decode? bytes = .ok text →
    Json.Exceeds (Newline.unify text) l → Cuts ⟨none, none, some bytes⟩ (.limit l)
  | bytes {bytes : List UInt8} {f : Utf8.Fault} : Utf8.decode? bytes = .error f →
    Cuts ⟨none, none, some bytes⟩ (.undecodable f)

theorem DisguiseSources.load_eq_fatal_iff {sources : DisguiseSources} {f : Fatal} :
    sources.load = .error (.fatal f) ↔ sources.Cuts f := by
  constructor
  · intro h
    unfold load at h
    split at h
    · unfold disguiseOfDomain at h
      split at h
      · cases h
      · cases h
    · obtain ⟨l, hexceeds, rfl⟩ := disguiseOfText_eq_fatal_iff.mp h
      exact .text hexceeds
    · unfold disguiseOfFile at h
      split at h
      · rename_i hdecode
        obtain ⟨l, hexceeds, rfl⟩ := disguiseOfText_eq_fatal_iff.mp h
        exact .file hdecode hexceeds
      · rename_i hdecode
        cases h
        exact .bytes hdecode
    · cases h
  · intro h
    cases h with
    | text hexceeds => exact disguiseOfText_eq_fatal_iff.mpr ⟨_, hexceeds, rfl⟩
    | file hdecode hexceeds =>
      rw [load, disguiseOfFile, hdecode]
      exact disguiseOfText_eq_fatal_iff.mpr ⟨_, hexceeds, rfl⟩
    | bytes hdecode => rw [load, disguiseOfFile, hdecode]

/-- What cuts a command short that applies a disguise: a path under which no file can be looked up, or a disguise that
cannot be read. -/
inductive DisguiseCut (w : World) (arguments : List (List Char)) : Fatal → Prop
  | path {o : Opt} {path : List Char} : invocation w.env w.files arguments = .error (.noPath o path) →
    DisguiseCut w arguments .noPath
  | sources {baseUrl serverId adminApiKey : List Char} {sources : DisguiseSources} {asJson : Bool} {f : Fatal} :
    invocation w.env w.files arguments = .ok (.task (.updateDisguise baseUrl serverId adminApiKey sources) asJson) →
    sources.Cuts f → DisguiseCut w arguments f

/-! ## Endings -/

/-- A disguise is settled: one process has been started, or none and a failure is reported. -/
inductive Finish.Settled (terminal : Bool) (f : Finish) : Prop
  | applied {spawn : Spawn} : f.status = .ok 0 → f.spawns = [spawn] → Settled terminal f
  | reported {message : Text} : f.status = .ok 1 → f.spawns = [] → f.Reports terminal message → Settled terminal f

/-- Remarks in front change nothing. -/
theorem Finish.Settled.behind {terminal : Bool} {r : Run} (h : (r.finish terminal).Settled terminal)
    {log : List LogEntry} (hlog : ∀ entry ∈ log, entry.Harmless) :
    ((r.after (logged log) []).finish terminal).Settled terminal := by
  cases h with
  | applied hstatus hspawns =>
    rw [Run.finish_after]
    exact .applied hstatus hspawns
  | reported hstatus hspawns hreports =>
    have hreports' := hreports.behind hlog []
    rw [Run.finish_after] at hreports' ⊢
    exact .reported hstatus hspawns hreports'

theorem Run.settled_failed {message : Text} (h : message.OfCharacters) (terminal asJson : Bool) :
    ((Run.failed asJson message).finish terminal).Settled terminal := by
  obtain ⟨hstatus, hreports⟩ := Run.reports_of_characters h terminal asJson
  exact .reported hstatus (Run.spawns_failed asJson message) hreports

section

variable {w : World} {op : Operation} {args : Members Empty} {terminal : Bool}

/-- The value of an operation is presented without a failure. -/
theorem status_operate_of_ok {v : Json} (h : (w.perform op args).result = .ok v) (asJson : Bool) (label : String) :
    ((operate w op args asJson (Run.succeeded label)).finish terminal).status = .ok 0 := by
  cases asJson with
  | true =>
    obtain ⟨_, -, -, hfinish⟩ := Run.says_outcome h
    rw [operate_of_ok h, Run.finish_after]
    exact (hfinish terminal).2
  | false =>
    by_cases hnull : v = .null
    · obtain ⟨shown, hshown⟩ :=
        Terminal.exists_characters_lineOn terminal (Text.ofCharacters_ofString (label ++ " completed"))
      subst hnull
      rw [operate_of_ok h, Run.finish_after]
      simp only [Run.succeeded, Run.finish, Terminal.write, Terminal.textOn, hshown, Terminal.Streams.after,
        Bool.false_eq_true, if_false]
    · have hlines : Run.succeeded label v =
          Run.lines ((Json.writeIndented v).map fun text => [Text.ofChars text]) := by
        rw [Run.succeeded]
        exact hnull
      obtain ⟨_, -, hstatus, -⟩ := output_of_present terminal h hlines
      exact hstatus

/-- With a backend that answers, an operation whose arguments have their shape is settled. -/
theorem settled_operate (hs : op.Shaped args) (hok : ∀ spawn, (w.runner spawn).Answers) (asJson : Bool)
    (label : String) : ((operate w op args asJson (Run.succeeded label)).finish terminal).Settled terminal := by
  have hpack := Operation.pack_of_shaped hs
  cases hencode : Payload.encode (.ofJson (.object (op.wire args))) with
  | ok t =>
    obtain ⟨hcall, -⟩ := Config.call_of_encode (Config.ofEnvironment w.directory w.env) w.env.debug w.runner
      op.action hencode
    have hspawns := (Operation.spawns_run hpack).trans hcall
    obtain ⟨v, hv⟩ := (World.answers_perform (hspawns ▸ List.mem_singleton_self _)).mpr (hok _)
    refine .applied (status_operate_of_ok hv asJson label) (Eq.trans ?_ hspawns)
    exact spawns_operate (Run.presents_succeeded label)
  | error e =>
    have hcall := Config.call_of_unwritable (Config.ofEnvironment w.directory w.env) w.env.debug w.runner
      op.action hencode
    have hspawns : (w.perform op args).spawns = [] := by
      rw [World.perform, Operation.spawns_run hpack, hcall]
    have hresult : (w.perform op args).result = .error (.reported (.call e)) := by
      rw [World.perform, Operation.result_run hpack, hcall]
      rfl
    have hmessage : e.message.OfCharacters := by
      unfold Payload.encode at hencode
      split at hencode
      · cases hencode
      · cases hencode
        exact Text.ofCharacters_ofString _
    rw [operate_of_reported hresult, hspawns]
    apply (Run.settled_failed hmessage terminal asJson).behind
    exact LogEntry.harmless_of_debug (List.forall_mem_append.mpr ⟨Operation.level_run, Log.level_debug⟩)

end

/-- A disguise is settled, unless it cannot be read. -/
theorem Task.settled_updateDisguise {w : World} (hok : ∀ spawn, (w.runner spawn).Answers) (terminal asJson : Bool)
    (baseUrl serverId adminApiKey : List Char) (sources : DisguiseSources) :
    ((Task.run w asJson (.updateDisguise baseUrl serverId adminApiKey sources)).finish terminal).Settled terminal ∨
      ∃ f, sources.Cuts f := by
  rw [Task.run_eq]
  cases hload : sources.load with
  | ok disguise =>
    simp only [Task.request, hload, Task.warnings, Run.after_nil]
    exact Or.inl (settled_operate (shaped_disguiseArguments _ _ _ _) hok asJson _)
  | error reason =>
    cases reason with
    | reported e =>
      simp only [Task.request, hload]
      exact Or.inl (Run.settled_failed e.ofCharacters_message terminal asJson)
    | fatal f => exact Or.inr ⟨f, DisguiseSources.load_eq_fatal_iff.mp hload⟩

/-! ## Command lines -/

section

variable {w : World} {rest : List (List Char)}

theorem invocation_updateDisguise (env : Environment) (files : Files) (rest : List (List Char)) :
    invocation env files ("update-disguise".toList :: rest) = Command.updateDisguise.invocation env files rest :=
  invocation_of_typed rfl rfl env files

/-- The name of the command is no short name to remark upon. -/
theorem run_updateDisguise (w : World) (rest : List (List Char)) :
    run w ("update-disguise".toList :: rest) =
      Invocation.run w (invocation w.env w.files ("update-disguise".toList :: rest)) := by
  have hremarks : remarks w.env.debug ("update-disguise".toList :: rest) = [] := rfl
  rw [CommandLine.run_eq, hremarks, Run.after_nil]

/-- What is cut short has started and said nothing. -/
theorem DisguiseCut.finish_eq {f : Fatal} (h : DisguiseCut w ("update-disguise".toList :: rest) f) (terminal : Bool) :
    (run w ("update-disguise".toList :: rest)).finish terminal = ⟨.error f, [], [], []⟩ := by
  rw [run_updateDisguise]
  cases h with
  | path hpath =>
    rw [hpath]
    rfl
  | sources hasked hcuts =>
    rw [hasked]
    show Run.finish terminal (Task.run w _ _) = _
    rw [Task.run_eq]
    simp only [Task.request, DisguiseSources.load_eq_fatal_iff.mpr hcuts]
    rfl

/-- With a backend that answers, a command that applies a disguise is settled, unless it is cut short. -/
theorem settled_or_cut (hhelp : ∀ c, invocation w.env w.files ("update-disguise".toList :: rest) ≠ .ok (.help c))
    (hok : ∀ spawn, (w.runner spawn).Answers) (terminal : Bool) :
    ((run w ("update-disguise".toList :: rest)).finish terminal).Settled terminal ∨
      ∃ f, DisguiseCut w ("update-disguise".toList :: rest) f := by
  rw [run_updateDisguise]
  cases hasked : invocation w.env w.files ("update-disguise".toList :: rest) with
  | error e =>
    have hfailed : ((Run.failed false e.message).finish terminal).Settled terminal :=
      Run.settled_failed e.ofCharacters_message terminal false
    cases e with
    | noPath o path => exact Or.inr ⟨.noPath, .path hasked⟩
    | _ => exact Or.inl hfailed
  | ok i =>
    cases i with
    | help c => exact absurd hasked (hhelp c)
    | version =>
      rw [invocation_updateDisguise] at hasked
      obtain ⟨s, -, h⟩ := bind_eq_ok.mp hasked
      split at h
      · cases h
      · obtain ⟨task, -, h⟩ := bind_eq_ok.mp h
        cases h
    | task task asJson =>
      have hcommand := hasked
      rw [invocation_updateDisguise] at hcommand
      have htask := Task.command_of_invocation hcommand
      cases task with
      | updateDisguise baseUrl serverId adminApiKey sources =>
        rcases Task.settled_updateDisguise hok terminal asJson baseUrl serverId adminApiKey sources with
          hsettled | ⟨f, hcuts⟩
        · exact Or.inl hsettled
        · exact Or.inr ⟨f, .sources hasked hcuts⟩
      | _ => cases htask

/-- A command that applies a disguise is cut short exactly where its path is none or its disguise cannot be read, and
then nothing is started or said. Otherwise, with a backend that answers, either one process is started and the exit
status is zero, or none is, the exit status is one and a failure is reported. -/
theorem run_updateDisguise_cut_iff
    (hhelp : ∀ c, invocation w.env w.files ("update-disguise".toList :: rest) ≠ .ok (.help c))
    (hok : ∀ spawn, (w.runner spawn).Answers) (terminal : Bool) :
    (∀ f, ((run w ("update-disguise".toList :: rest)).finish terminal).status = .error f ↔
      DisguiseCut w ("update-disguise".toList :: rest) f) ∧
    (∀ f, DisguiseCut w ("update-disguise".toList :: rest) f →
      (run w ("update-disguise".toList :: rest)).finish terminal = ⟨.error f, [], [], []⟩) ∧
    ((∀ f, ¬ DisguiseCut w ("update-disguise".toList :: rest) f) →
      ((run w ("update-disguise".toList :: rest)).finish terminal).Settled terminal) := by
  have hcases := settled_or_cut hhelp hok terminal
  refine ⟨fun f => ⟨?_, ?_⟩, fun f hcut => hcut.finish_eq terminal, ?_⟩
  · intro hstatus
    rcases hcases with hsettled | ⟨g, hcut⟩
    · exfalso
      cases hsettled with
      | applied hzero _ => cases hzero.symm.trans hstatus
      | reported hone _ _ => cases hone.symm.trans hstatus
    · rw [hcut.finish_eq terminal] at hstatus
      cases hstatus
      exact hcut
  · intro hcut
    rw [hcut.finish_eq terminal]
  · intro hnone
    rcases hcases with hsettled | ⟨f, hcut⟩
    · exact hsettled
    · exact absurd hcut (hnone f)

/-- A file with a byte that begins no character. -/
theorem run_updateDisguise_cut_iff_byte :
    ((run ⟨⟨[]⟩, "/opt", fun _ => some (.file [0xFF]), fun _ => .exited 0
        (some (Utf8.encode "\x7b\"ok\": true\x7d".toList)) none⟩
      ["update-disguise".toList, "--base-url=b".toList, "--server-id=s".toList, "--admin-api-key=k".toList,
        "--disguise-file=d".toList]).finish false).status = .error (.undecodable ⟨.badStart, 0, 1, 0xFF⟩) := by
  let w : World := ⟨⟨[]⟩, "/opt", fun _ => some (.file [0xFF]), fun _ => .exited 0
    (some (Utf8.encode "\x7b\"ok\": true\x7d".toList)) none⟩
  have hasked : invocation w.env w.files ["update-disguise".toList, "--base-url=b".toList, "--server-id=s".toList,
      "--admin-api-key=k".toList, "--disguise-file=d".toList] =
      .ok (.task (.updateDisguise ['b'] ['s'] ['k'] ⟨none, none, some [0xFF]⟩) false) := by rfl
  have hok : ∀ spawn, (w.runner spawn).Answers := fun _ => ⟨0, _, none, .null, rfl, by rfl⟩
  have hhelp : ∀ c, invocation w.env w.files ["update-disguise".toList, "--base-url=b".toList, "--server-id=s".toList,
      "--admin-api-key=k".toList, "--disguise-file=d".toList] ≠ .ok (.help c) := by
    intro c hc
    rw [hasked] at hc
    cases hc
  obtain ⟨hcut, -⟩ := run_updateDisguise_cut_iff hhelp hok false
  exact (hcut _).mpr (.sources hasked (.bytes rfl))

end

end CommandLine

end AgentBridge
