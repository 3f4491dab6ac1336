import AgentBridge.Proofs.ExitStatus

/-
  AgentBridge.Proofs.OpenedLinks — of several links the first valid one is imported.

  Links are tried in their order, each rejected for a reason of its own, up to the first one
  that is valid; what stands behind that one is not looked at (`firstValid_append`). Either all
  are rejected or there is a first valid one (`rejected_or_valid`). Without a valid link the run
  is one failure (`run_of_rejected`). With one it is the import of that link behind a warning for
  each link that was passed over, whatever links follow (`run_of_valid`).
  What a link gives always has a payload, so its import starts a process
  (`run_opens_first_valid`).
-/

namespace AgentBridge

/-! ## Links in their order -/

namespace Link

/-- Some links are rejected, each for its reason. -/
def Rejected (urls : List (List Char)) (reasons : List LinkError) : Prop :=
  List.Forall₂ (fun url reason => read url = .error reason) urls reasons

/-- If all links are rejected, there is none to import. -/
theorem firstValid_of_rejected {urls : List (List Char)} {reasons : List LinkError} (h : Rejected urls reasons) :
    firstValid urls = (none, urls.zip reasons) := by
  induction h with
  | nil => rfl
  | cons hread _ ih =>
    simp only [firstValid, hread, ih]
    rfl

/-- A valid link is found behind those that are rejected. What is behind it does not matter. -/
theorem firstValid_append {before : List (List Char)} {reasons : List LinkError} (h : Rejected before reasons)
    {url : List Char} {link : Link} (hvalid : read url = .ok link) (after : List (List Char)) :
    firstValid (before ++ url :: after) = (some link, before.zip reasons) := by
  induction h with
  | nil => simp only [List.nil_append, firstValid, hvalid, List.zip_nil_left]
  | cons hread _ ih =>
    simp only [List.cons_append, firstValid, hread, ih]
    rfl

/-- Either all links are rejected, or those in front of a valid one are. -/
theorem rejected_or_valid (urls : List (List Char)) : (∃ reasons, Rejected urls reasons) ∨
    ∃ before reasons url link after, urls = before ++ url :: after ∧ Rejected before reasons ∧ read url = .ok link := by
  induction urls with
  | nil => exact Or.inl ⟨[], .nil⟩
  | cons url rest ih =>
    cases hread : read url with
    | ok link => exact Or.inr ⟨[], [], url, link, rest, rfl, .nil, hread⟩
    | error reason =>
      rcases ih with ⟨reasons, hrejected⟩ | ⟨before, reasons, valid, link, after, rfl, hrejected, hvalid⟩
      · exact Or.inl ⟨reason :: reasons, .cons hread hrejected⟩
      · exact Or.inr ⟨url :: before, reason :: reasons, valid, link, after, rfl, .cons hread hrejected, hvalid⟩

end Link

/-! ## Warnings -/

def LogEntry.isWarning (entry : LogEntry) : Bool := entry.level = warningLevel

theorem Log.filter_isWarning_of_debug {log : List LogEntry} (h : ∀ entry ∈ log, entry.level = LogEntry.debugLevel) :
    log.filter LogEntry.isWarning = [] := by
  rw [List.filter_eq_nil_iff]
  intro entry hentry
  rw [LogEntry.isWarning, h entry hentry]
  decide

theorem LogEntry.line_warning (text : Text) :
    (LogEntry.warning text).line = Text.ofString "Warning: " ++ text ++ Text.ofChars ['\n'] := by
  unfold line label
  rfl

namespace CommandLine

/-- The log entries that a run prints, in their order. -/
def Run.log (r : Run) : List LogEntry :=
  r.printed.filterMap fun
    | .log entry => some entry
    | _ => none

def Run.warnings (r : Run) : List LogEntry := r.log.filter LogEntry.isWarning

/-- What was warned about before comes first. -/
theorem Run.warnings_after (log : List LogEntry) (spawns : List Spawn) (r : Run) :
    (r.after (logged log) spawns).warnings = log.filter LogEntry.isWarning ++ r.warnings := by
  have hlog : (r.after (logged log) spawns).log = log ++ r.log := by
    rw [Run.log, Run.after, List.filterMap_append, logged, List.filterMap_map, ← Run.log]
    exact congrArg (· ++ r.log) List.filterMap_some
  rw [Run.warnings, hlog, List.filter_append, ← Run.warnings]

theorem Run.warnings_failed (asJson : Bool) (message : Text) : (Run.failed asJson message).warnings = [] := by
  cases asJson <;> rfl

theorem Run.Presents.warnings {r : Run} (h : r.Presents) : r.warnings = [] := by
  rcases h with ⟨results, rfl⟩ | ⟨f, rfl⟩
  · have hlog : (Run.mk (.ok 0) (results.map .result) []).log = [] := by
      rw [Run.log, List.filterMap_map]
      exact List.filterMap_eq_nil_iff.mpr fun _ _ => rfl
    rw [Run.warnings, hlog, List.filter_nil]
  · rfl

/-- No operation warns of anything. -/
theorem warnings_operate {w : World} {op : Operation} {args : Members Empty} {asJson : Bool} {present : Json → Run}
    (h : ∀ v, (present v).Presents) : (operate w op args asJson present).warnings = [] := by
  have hlog : ∀ entry ∈ (w.perform op args).log, entry.level = LogEntry.debugLevel := Operation.level_run
  have hnone := Log.filter_isWarning_of_debug hlog
  cases hresult : (w.perform op args).result with
  | ok v => rw [operate_of_ok hresult, Run.warnings_after, hnone, (Run.presents_told (h v)).warnings, List.append_nil]
  | error f =>
    cases f with
    | reported e =>
      rw [operate_of_reported hresult, Run.warnings_after, List.filter_append, hnone,
        Log.filter_isWarning_of_debug Log.level_debug, Run.warnings_failed, List.append_nil, List.append_nil]
    | limit l =>
      have hcut := Run.warnings_after (w.perform op args).log [] ⟨.error (.limit l), [], []⟩
      rw [Run.after, List.append_nil, hnone] at hcut
      rw [operate_of_limit hresult]
      exact hcut

/-- The line of the warning about a link that is passed over. -/
def skippedLine (url : List Char) (reason : LinkError) : List Char :=
  "Warning: ".toList ++ ("Skipping deep link ".toList ++ url ++ ": ".toList ++ reason.message.toList) ++ ['\n']

theorem line_skipped (url : List Char) (reason : LinkError) :
    (skipped url reason).line = Text.ofChars (skippedLine url reason) := by
  unfold skipped skippedLine
  refine (LogEntry.line_warning _).trans ?_
  rw [Text.ofChars_append, Text.ofChars_append, Text.ofChars_append, Text.ofChars_append, Text.ofChars_append]
  rfl

/-- Every warning is seen as its line. -/
theorem shown_skipped : ∀ (urls : List (List Char)) (reasons : List LinkError),
    Log.shown (List.zipWith skipped urls reasons) = (List.zipWith skippedLine urls reasons).flatten
  | [], _ => rfl
  | _ :: _, [] => rfl
  | url :: urls, reason :: reasons => by
    have hrest := shown_skipped urls reasons
    rw [Log.shown] at hrest ⊢
    rw [List.zipWith_cons_cons, List.flatMap_cons, hrest, line_skipped, Utf8.characters_ofChars]
    rfl

/-! ## Runs -/

/-- Any links can be asked for, behind two hyphens. -/
theorem invocation_openLink (env : Environment) (files : Files) (asJson : Bool) {urls : List (List Char)}
    (hne : urls ≠ []) :
    invocation env files ("open-link".toList :: ((if asJson then ["--json".toList] else []) ++ optionsEnd :: urls)) =
      .ok (.task (.openLink urls) asJson) := by
  obtain ⟨url, more, rfl⟩ := List.exists_cons_of_ne_nil hne
  cases asJson <;> rfl

section

variable {w : World} {arguments urls : List (List Char)} {asJson : Bool}

/-- The command that opens links has no short name to remark upon. -/
theorem run_openLink (h : invocation w.env w.files arguments = .ok (.task (.openLink urls) asJson)) :
    run w arguments = Task.run w asJson (.openLink urls) := by
  have hshort : ∀ a ∈ Command.aliases, a.2 ≠ Command.openLink := by decide
  rw [CommandLine.run_eq, h, remarks_eq_nil h hshort]
  rfl

/-- Without a valid link the run fails with one message. -/
theorem run_of_rejected (h : invocation w.env w.files arguments = .ok (.task (.openLink urls) asJson))
    {reasons : List LinkError} (hrejected : Link.Rejected urls reasons) :
    run w arguments = Run.failed asJson (rejection (urls.zip reasons)) := by
  rw [run_openLink h, Task.run_eq]
  simp only [Task.request, Link.firstValid_of_rejected hrejected]

/-- With a valid link the run is its import, behind the warnings about the links in front of it. -/
theorem run_of_valid {before after : List (List Char)} {url : List Char}
    (h : invocation w.env w.files arguments = .ok (.task (.openLink (before ++ url :: after)) asJson))
    {reasons : List LinkError} (hrejected : Link.Rejected before reasons) {link : Link}
    (hvalid : Link.read url = .ok link) :
    run w arguments =
      (operate w .importToken (importArguments link.baseUrl link.token) asJson (Run.succeeded "Import")).after
        (logged (List.zipWith skipped before reasons)) [] := by
  have hfirst := Link.firstValid_append hrejected hvalid after
  rw [run_openLink h, Task.run_eq]
  simp only [Task.request, Task.warnings, Task.present, hfirst, List.zip_eq_zipWith, List.map_zipWith]

end

/-- What a link gives is imported by one process, with the base address and the token in its payload. -/
theorem spawns_import (w : World) (link : Link) : ∃ payload,
    Json.read payload = .ok (.object [("baseUrl", .str (Text.ofChars link.baseUrl)),
      ("token", .str (Text.ofChars link.token))]) ∧
    (w.perform .importToken (importArguments link.baseUrl link.token)).spawns =
      [⟨[(Config.ofEnvironment w.directory w.env).program, (Config.ofEnvironment w.directory w.env).script,
        "importToken", Text.ofChars payload], (Config.ofEnvironment w.directory w.env).deadline⟩] := by
  have htext : ∀ p ∈ Operation.importToken.parameters, ∃ cs,
      Operation.argument (importArguments link.baseUrl link.token) p = .str (Text.ofChars cs) := by
    intro p hp
    simp only [Operation.parameters, List.mem_cons, List.not_mem_nil, or_false] at hp
    rcases hp with rfl | rfl
    · exact ⟨link.baseUrl, rfl⟩
    · exact ⟨link.token, rfl⟩
  have hsuitable : Operation.importToken.Suitable (importArguments link.baseUrl link.token) := by
    refine ⟨shaped_importArguments _ _, ?_⟩
    intro p hp
    obtain ⟨cs, hcs⟩ := htext p hp
    rw [hcs]
    exact .str _
  have hproper : ∀ p ∈ Operation.importToken.parameters,
      Json.Proper 200 (Operation.argument (importArguments link.baseUrl link.token) p) := by
    intro p hp
    obtain ⟨cs, hcs⟩ := htext p hp
    rw [hcs]
    exact .str (Text.paired_ofChars cs)
  obtain ⟨payload, hread, hspawns, -⟩ := Operation.run_of_suitable hsuitable hproper
    (Config.ofEnvironment w.directory w.env) w.env.debug w.runner
  exact ⟨payload, hread, hspawns⟩

/-- Of the links that are opened together the first valid one is imported. Either all are rejected, or those in front of
a valid one are. If all are rejected, nothing is started and nothing is warned of; the run fails with the reason of a
single link, or with a general message for several. Otherwise one process is started with what the first valid link
gives, and there is one warning for each link in front of it, in their order and each with its own reason. The links
behind it do not matter. -/
theorem run_opens_first_valid {w : World} {arguments urls : List (List Char)} {asJson : Bool}
    (h : invocation w.env w.files arguments = .ok (.task (.openLink urls) asJson)) (terminal : Bool) :
    ((∃ reasons, Link.Rejected urls reasons) ∨ ∃ before reasons url link after,
      urls = before ++ url :: after ∧ Link.Rejected before reasons ∧ Link.read url = .ok link) ∧
    (∀ reasons, Link.Rejected urls reasons →
      (run w arguments).warnings = [] ∧ ((run w arguments).finish terminal).spawns = [] ∧
      ((run w arguments).finish terminal).status = .ok 1 ∧
      ∃ message, ((run w arguments).finish terminal).Reports terminal message ∧
        ((∃ reason, reasons = [reason] ∧ message = Text.ofString reason.message) ∨
          (urls.length ≠ 1 ∧
            message = "Deep link ignored: invalid format. Expected xraycp://import?..."))) ∧
    ∀ before reasons url link after, urls = before ++ url :: after → Link.Rejected before reasons →
      Link.read url = .ok link →
      (run w arguments).warnings = List.zipWith skipped before reasons ∧
      (∃ rest, ((run w arguments).finish terminal).errors =
        (List.zipWith skippedLine before reasons).flatten ++ rest) ∧
      (∃ payload, Json.read payload = .ok (.object [("baseUrl", .str (Text.ofChars link.baseUrl)),
          ("token", .str (Text.ofChars link.token))]) ∧
        ((run w arguments).finish terminal).spawns =
          [⟨[(Config.ofEnvironment w.directory w.env).program, (Config.ofEnvironment w.directory w.env).script,
            "importToken", Text.ofChars payload], (Config.ofEnvironment w.directory w.env).deadline⟩]) ∧
      ∀ arguments' after',
        invocation w.env w.files arguments' = .ok (.task (.openLink (before ++ url :: after')) asJson) →
        run w arguments' = run w arguments := by
  refine ⟨Link.rejected_or_valid urls, ?_, ?_⟩
  · intro reasons hrejected
    rw [run_of_rejected h hrejected]
    obtain ⟨hstatus, hreports⟩ := Run.reports_of_characters (ofCharacters_rejection (urls.zip reasons)) terminal asJson
    refine ⟨Run.warnings_failed _ _, Run.spawns_failed _ _, hstatus, _, hreports, ?_⟩
    cases hrejected with
    | nil => exact Or.inr ⟨by decide, rfl⟩
    | cons _ hmore =>
      cases hmore with
      | nil => exact Or.inl ⟨_, rfl, rfl⟩
      | cons _ _ => exact Or.inr ⟨by simp, rfl⟩
  · rintro before reasons url link after rfl hrejected hvalid
    have hpresent : ∀ v, (Run.succeeded "Import" v).Presents := Run.presents_succeeded "Import"
    have hwarnings : (List.zipWith skipped before reasons).filter LogEntry.isWarning =
        List.zipWith skipped before reasons := by
      rw [List.filter_eq_self, ← List.map_uncurry_zip_eq_zipWith, List.forall_mem_map]
      exact fun _ _ => rfl
    obtain ⟨payload, hread, hspawns⟩ := spawns_import w link
    rw [run_of_valid h hrejected hvalid]
    refine ⟨?_, ?_, ⟨payload, hread, ?_⟩, ?_⟩
    · rw [Run.warnings_after, warnings_operate hpresent, hwarnings, List.append_nil]
    · rw [Run.finish_after, shown_skipped]
      exact ⟨_, rfl⟩
    · rw [Run.finish_after, List.nil_append, ← hspawns]
      exact spawns_operate hpresent
    · intro arguments' after' h'
      exact run_of_valid h' hrejected hvalid

/-- The first link has another action and the last one is no link at all: there is one warning, and without the last
one the run is the same. -/
theorem run_opens_first_valid_between : ∃ w payload,
    (run w ["open-link".toList, "--".toList, "xraycp://connect".toList,
      "xraycp://import?token=0123456789abcdef&baseUrl=http://b".toList, "junk".toList]).warnings =
        [skipped "xraycp://connect".toList .otherAction] ∧
    Json.read payload = .ok (.object [("baseUrl", .str "http://b"), ("token", .str "0123456789abcdef")]) ∧
    ((run w ["open-link".toList, "--".toList, "xraycp://connect".toList,
      "xraycp://import?token=0123456789abcdef&baseUrl=http://b".toList, "junk".toList]).finish false).spawns =
        [⟨["node", "/opt/backend/desktop-bridge.cjs", "importToken", Text.ofChars payload], none⟩] ∧
    run w ["open-link".toList, "--".toList, "xraycp://connect".toList,
      "xraycp://import?token=0123456789abcdef&baseUrl=http://b".toList] =
    run w ["open-link".toList, "--".toList, "xraycp://connect".toList,
      "xraycp://import?token=0123456789abcdef&baseUrl=http://b".toList, "junk".toList] := by
  let w : World := ⟨⟨[]⟩, "/opt", fun _ => none, fun _ => .expired⟩
  have hrejected : Link.Rejected ["xraycp://connect".toList] [.otherAction] := .cons (by decide) .nil
  have hvalid : Link.read "xraycp://import?token=0123456789abcdef&baseUrl=http://b".toList =
      .ok ⟨"http://b".toList, "0123456789abcdef".toList⟩ := by decide
  have hconfig : Config.ofEnvironment w.directory w.env = ⟨"node", "/opt/backend/desktop-bridge.cjs", none⟩ := by decide
  have hasked : invocation w.env w.files ["open-link".toList, "--".toList, "xraycp://connect".toList,
      "xraycp://import?token=0123456789abcdef&baseUrl=http://b".toList, "junk".toList] =
      .ok (.task (.openLink ["xraycp://connect".toList,
        "xraycp://import?token=0123456789abcdef&baseUrl=http://b".toList, "junk".toList]) false) :=
    invocation_openLink w.env w.files false (List.cons_ne_nil _ _)
  obtain ⟨-, -, hopened⟩ := run_opens_first_valid hasked false
  obtain ⟨hwarnings, -, ⟨payload, hread, hspawns⟩, hsame⟩ := hopened _ _ _ _ _ rfl hrejected hvalid
  rw [hconfig] at hspawns
  refine ⟨w, payload, hwarnings, hread, hspawns, hsame _ [] ?_⟩
  exact invocation_openLink w.env w.files false (List.cons_ne_nil _ _)

end CommandLine

end AgentBridge
