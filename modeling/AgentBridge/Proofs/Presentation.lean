import AgentBridge.Proofs.Characters
import AgentBridge.Proofs.ExitStatus
import AgentBridge.Proofs.Options

/-
  AgentBridge.Proofs.Presentation — asking for JSON changes the presentation only.

  The switch right behind the name of a command is taken by itself, so the command line asks for
  the same as without it, or both are at fault in the same way (`alike_invocation_json`). A task
  runs its operation before anything is presented, and as long as processes write no surrogates
  both presentations can be written. Therefore both runs start the same process and end in the
  same way (`Task.endAlike_json`), and a value that is shown over several lines is the one that
  the outcome tells (`run_json_or_not`).
-/

namespace AgentBridge.CommandLine

/-! ## The name of a command -/

/-- An argument in front of what is positional is the first positional one, ends the options, is at fault, or is a
switch. -/
theorem scan_program (argument : List Char) :
    (∀ rest, scan programOptions false (argument :: rest) = .ok ⟨[], argument :: rest⟩) ∨
      (∀ rest, scan programOptions false (argument :: rest) = .ok ⟨[], rest⟩) ∨
      (∃ e, ∀ rest, scan programOptions false (argument :: rest) = .error e) ∨
      ∃ o v, ∀ rest, scan programOptions false (argument :: rest) =
        (scan programOptions false rest).map (·.addOption o v) := by
  by_cases hend : argument = optionsEnd
  · refine Or.inr (Or.inl fun rest => ?_)
    rw [scan, if_pos hend]
  have hswitches : ∀ p ∈ programOptions, p.takesValue = true → argument ≠ p.name.toList := by
    intro p hp ht
    have hswitch : ∀ p ∈ programOptions, p.takesValue = false := by decide
    rw [hswitch p hp] at ht
    cases ht
  rcases scan_argument hend hswitches false with he | hoption | ⟨o, v, -, ho⟩
  · exact Or.inr (Or.inr (Or.inl he))
  · refine Or.inl fun rest => ?_
    rw [scan, if_neg hend, hoption]
    rfl
  · exact Or.inr (Or.inr (Or.inr ⟨o, v, ho⟩))

theorem length_rest_le {arguments : List (List Char)} {s : Scanned} (h : scan programOptions false arguments = .ok s) :
    s.rest.length ≤ arguments.length := by
  induction arguments generalizing s with
  | nil =>
    cases h
    exact Nat.le_refl _
  | cons argument rest ih =>
    rcases scan_program argument with hname | hend | ⟨e, he⟩ | ⟨o, v, ho⟩
    · rw [hname] at h
      cases h
      exact Nat.le_refl _
    · rw [hend] at h
      cases h
      exact Nat.le_succ _
    · rw [he] at h
      cases h
    · rw [ho] at h
      obtain ⟨s', hs', rfl⟩ := map_eq_ok.mp h
      exact (ih hs').trans (Nat.le_succ _)

variable {front rest : List (List Char)} {typed : List Char} {given : List Given}

/-- What stands behind the name of a command has no part in how the name is found. -/
theorem scan_behind (h : scan programOptions false (front ++ typed :: rest) = .ok ⟨given, typed :: rest⟩)
    (rest' : List (List Char)) :
    scan programOptions false (front ++ typed :: rest') = .ok ⟨given, typed :: rest'⟩ := by
  induction front generalizing given with
  | nil =>
    rw [List.nil_append] at h ⊢
    rcases scan_program typed with hname | hend | ⟨e, he⟩ | ⟨o, v, ho⟩
    · rw [hname] at h ⊢
      cases h
      rfl
    · -- Fewer arguments would be left than the name and what is behind it.
      rw [hend] at h
      exact absurd (congrArg (·.rest.length) (Except.ok.inj h)) (by simp)
    · rw [he] at h
      cases h
    · rw [ho] at h
      obtain ⟨s, hs, hadd⟩ := map_eq_ok.mp h
      have hlength := length_rest_le hs
      have hrest : s.rest = typed :: rest := congrArg (·.rest) hadd
      rw [hrest] at hlength
      exact absurd hlength (Nat.not_succ_le_self _)
  | cons argument front ih =>
    rw [List.cons_append] at h ⊢
    rcases scan_program argument with hname | hend | ⟨e, he⟩ | ⟨o, v, ho⟩
    · rw [hname] at h
      have hlength := congrArg (·.rest.length) (Except.ok.inj h)
      simp only [List.length_cons, List.length_append] at hlength
      omega
    · rw [hend] at h ⊢
      obtain ⟨rfl, hrest⟩ := Scanned.mk.inj (Except.ok.inj h)
      obtain rfl : front = [] := List.append_left_eq_self.mp hrest
      rfl
    · rw [he] at h
      cases h
    · rw [ho] at h ⊢
      obtain ⟨s, hs, hadd⟩ := map_eq_ok.mp h
      obtain ⟨rfl, hrest⟩ := Scanned.mk.inj hadd
      have hs' : scan programOptions false (front ++ typed :: rest) = .ok ⟨s.given, typed :: rest⟩ := by
        rw [hs, ← hrest]
      rw [ih hs']
      rfl

theorem remarks_behind (h : scan programOptions false (front ++ typed :: rest) = .ok ⟨given, typed :: rest⟩)
    (debug : Bool) (rest' : List (List Char)) :
    remarks debug (front ++ typed :: rest') = remarks debug (front ++ typed :: rest) := by
  unfold remarks
  rw [h, scan_behind h rest']
  cases given <;> rfl

/-! ## The switch -/

/-- What two command lines ask for is the same, but the second one asks for JSON. -/
inductive AsksJson : Invocation → Invocation → Prop
  | help (c : Option Command) : AsksJson (.help c) (.help c)
  | version : AsksJson .version .version
  | task (t : Task) (asJson : Bool) : AsksJson (.task t asJson) (.task t true)

/-- The task of a command does not depend on the switch. -/
theorem taskOf_addOption_json (env : Environment) (files : Files) (s : Scanned) (c : Command) :
    taskOf env files (s.addOption .json []) c = taskOf env files s c := by
  have hvalue : ∀ p, p ≠ .json → (s.addOption .json []).value? p = s.value? p := fun p hp => by
    rw [Scanned.value?_addOption, if_neg hp.symm]
  have hrequired : ∀ p, p ≠ .json → required env (s.addOption .json []) p = required env s p := fun p hp => by
    rw [required, valueOf, hvalue p hp]
    rfl
  have hfile : fileOf files (s.addOption .json []) .disguiseFile = fileOf files s .disguiseFile := by
    rw [fileOf, hvalue _ (by decide)]
    rfl
  have hrest : (s.addOption .json []).rest = s.rest := rfl
  cases c with
  | updateDisguise =>
    simp only [taskOf, hfile, hrequired .baseUrl (by decide), hrequired .serverId (by decide),
      hrequired .adminApiKey (by decide), hrest, hvalue .domain (by decide), hvalue .disguise (by decide)]
  | importToken => simp only [taskOf, hrequired .baseUrl (by decide), hrequired .token (by decide), hrest]
  | _ => rfl

theorem Command.json_mem_options (c : Command) : .json ∈ c.options := by
  cases c <;> decide

theorem Command.alike_invocation_json (c : Command) (env : Environment) (files : Files) (rest : List (List Char)) :
    Alike AsksJson (c.invocation env files rest) (c.invocation env files (Opt.json.name.toList :: rest)) := by
  unfold Command.invocation
  rw [scan_switch c.json_mem_options rfl]
  cases scan c.options true rest with
  | error e => exact Or.inl ⟨e, rfl, rfl⟩
  | ok s =>
    have hhelp : (s.addOption .json []).has .help = s.has .help := rfl
    simp only [Except.map, bind, Except.bind, hhelp, taskOf_addOption_json]
    cases s.has .help with
    | true => exact Or.inr ⟨_, _, rfl, rfl, .help _⟩
    | false =>
      cases taskOf env files s c with
      | error e => exact Or.inl ⟨e, rfl, rfl⟩
      | ok task => exact Or.inr ⟨_, _, rfl, rfl, .task task _⟩

/-- A command line asks for the same with the switch behind the name of its command. -/
theorem alike_invocation_json
    (h : scan programOptions false (front ++ typed :: rest) = .ok ⟨given, typed :: rest⟩)
    (env : Environment) (files : Files) :
    Alike AsksJson (invocation env files (front ++ typed :: rest))
      (invocation env files (front ++ typed :: Opt.json.name.toList :: rest)) := by
  have h' := scan_behind h (Opt.json.name.toList :: rest)
  cases given with
  | nil =>
    cases hc : Command.ofTyped? typed with
    | some c =>
      rw [invocation_of_typed h hc, invocation_of_typed h' hc]
      exact c.alike_invocation_json env files rest
    | none =>
      unfold invocation
      rw [h, h']
      simp only [bind, Except.bind, hc]
      exact Or.inl ⟨_, rfl, rfl⟩
  | cons g more =>
    -- A switch in front of the name asks for a page, whatever the rest is.
    obtain ⟨o, v⟩ := g
    unfold invocation
    rw [h, h']
    simp only [bind, Except.bind]
    cases o with
    | version => exact Or.inr ⟨_, _, rfl, rfl, .version⟩
    | _ => exact Or.inr ⟨_, _, rfl, rfl, .help none⟩

/-! ## Tasks -/

variable {w : World} {terminal : Bool} {task : Task} {v : Json}

/-- An operation is run once, and both presentations of what comes of it can be written. -/
theorem endAlike_operate {op : Operation} {args : Members Empty} {present : Json → Run}
    (hfails : ∀ e, (w.perform op args).result = .error (.reported e) → e.message.OfCharacters)
    (hpresents : ∀ v, (present v).Presents)
    (hwritten : ∀ v, (w.perform op args).result = .ok v → ((present v).finish terminal).status = .ok 0) :
    EndAlike terminal (operate w op args false present) (operate w op args true present) := by
  cases hresult : (w.perform op args).result with
  | ok v =>
    rw [operate_of_ok hresult, operate_of_ok hresult]
    obtain ⟨_, -, -, hfinish⟩ := Run.says_outcome hresult
    refine EndAlike.after ⟨?_, ?_⟩ _ _ _
    · exact (hwritten v hresult).trans (hfinish terminal).2.symm
    · exact (hpresents v).spawns.trans (Run.presents_json _).spawns.symm
  | error f =>
    cases f with
    | limit l =>
      rw [operate_of_limit hresult, operate_of_limit hresult]
      exact .refl terminal _
    | reported e =>
      rw [operate_of_reported hresult, operate_of_reported hresult]
      exact (EndAlike.failed (hfails e hresult) (hfails e hresult) terminal false true).after _ _ _

theorem Task.endAlike_json (hplain : ∀ spawn, (w.runner spawn).Plain) (task : Task) (terminal asJson : Bool) :
    EndAlike terminal (task.run w asJson) (task.run w true) := by
  cases asJson with
  | true => exact .refl terminal _
  | false =>
    rw [Task.run_eq, Task.run_eq]
    cases hrequest : task.request with
    | error reason =>
      cases reason with
      | fatal f => exact .refl terminal _
      | reported message =>
        have hchars := Task.ofCharacters_of_refused hrequest
        exact .failed hchars hchars terminal false true
    | ok request =>
      obtain ⟨op, args⟩ := request
      refine EndAlike.after (endAlike_operate ?_ (task.presents_present w.env) ?_) _ _ _
      · intro e he
        exact (Task.Fails.operation hrequest he).ofCharacters hplain
      · intro v hv
        exact Task.status_present terminal task w.env ((Operation.readable_of_run hv).mono (Nat.sub_le _ 1))
          (Operation.ofCharacters_of_run hplain hv)

/-- What a task whose value has no page of its own is called when it is completed. -/
def Task.label? : Task → Option String
  | .connect => some "Connect"
  | .disconnect => some "Disconnect"
  | .status => none
  | .importToken .. | .openLink _ => some "Import"
  | .setMode _ => some "Mode change"
  | .updateDisguise .. => some "Apply disguise"

theorem Task.present_of_label {label : String} (h : task.label? = some label) (env : Environment) :
    task.present env = Run.succeeded label ∧ '\x1b' ∉ label.toList := by
  cases task with
  | status => cases h
  | _ =>
    cases h
    exact ⟨rfl, by decide⟩

/-- A value is shown as a text over several lines, and nothing is shown as a line of its own. -/
inductive ShownAs (label : String) (v : Json) (output : List Char) : Prop
  | completed : v = .null → output = label.toList ++ " completed\n".toList → ShownAs label v output
  | indented {t : List Char} : v ≠ .null → output = t ++ ['\n'] → Json.writeIndented v = .ok t →
    Json.read t = .ok v → ShownAs label v output

theorem Run.shownAs_succeeded {label : String} (hlabel : '\x1b' ∉ label.toList)
    (hv : Json.Readable Json.nestingLimit v) (terminal : Bool) :
    ShownAs label v ((Run.succeeded label v).finish terminal).output := by
  by_cases hnull : v = .null
  · subst hnull
    have hline : '\x1b' ∉ label.toList ++ " completed".toList := by
      rw [List.mem_append]
      exact not_or.mpr ⟨hlabel, by decide⟩
    have hrun : Run.succeeded label .null =
        ⟨.ok 0, [.result (Text.ofChars (label.toList ++ " completed".toList))], []⟩ := by
      rw [← String.toList_append]
      rfl
    refine .completed rfl ?_
    rw [hrun, (Run.finish_result terminal hline (.ok 0)).1, List.append_assoc]
    rfl
  · obtain ⟨t, ht, hread, houtput, -⟩ := Run.finish_indented terminal hv
    refine .indented hnull ?_ ht hread
    rw [Run.succeeded_of_ne_null label hnull]
    exact houtput

/-- The value of a task is shown to people. -/
theorem Task.Gives.shownAs {label : String} (h : task.Gives w v) (hlabel : task.label? = some label) (terminal : Bool) :
    ShownAs label v ((task.run w false).finish terminal).output := by
  obtain ⟨op, args, hrequest, hresult⟩ := h
  obtain ⟨hpresent, hescape⟩ := Task.present_of_label hlabel w.env
  rw [Task.run_eq, hrequest]
  dsimp only
  rw [operate_of_ok hresult, Run.after_after, Run.finish_after, hpresent]
  exact Run.shownAs_succeeded hescape ((Operation.readable_of_run hresult).mono (Nat.sub_le _ 1)) terminal

theorem Task.says_of_gives (h : task.Gives w v) : (task.run w true).Says 0 (Run.outcome v) := by
  obtain ⟨op, args, hrequest, hresult⟩ := h
  rw [Task.run_eq, hrequest]
  dsimp only
  rw [operate_of_ok hresult, Run.after_after]
  exact (Run.says_outcome hresult).after _ _

/-- A task without a value shows nothing to people. -/
theorem Task.output_of_not_gives (h : ∀ v, ¬ task.Gives w v) (terminal : Bool) :
    ((task.run w false).finish terminal).output = [] := by
  have hfailed : ∀ message, ((Run.failed false message).finish terminal).output = [] := by
    intro message
    rw [Run.failed_false, Run.finish]
    cases hchars : Utf8.characters (Terminal.textOn terminal (.failure ("Error: " ++ message))) with
    | ok shown => simp only [Terminal.write, hchars, Terminal.Streams.after]
    | error s => simp only [Terminal.write, hchars]
  have hends := task.ends_run w false
  generalize task.run w false = r at hends ⊢
  cases hends with
  | gives hrequest hresult => exact absurd ⟨_, _, hrequest, hresult⟩ (h _)
  | fails hrequest hresult =>
    rw [Run.finish_after]
    exact hfailed _
  | refused hrequest => exact hfailed _
  | limit l hrequest =>
    rw [← List.append_nil (logged _), Run.finish, Terminal.write_logged]
    rfl
  | fatal f => rfl

/-! ## Command lines -/

/-- The switch right behind the name of a command changes neither the processes that are started nor how the run ends,
as long as processes write no surrogates. -/
theorem endAlike_json (hplain : ∀ spawn, (w.runner spawn).Plain)
    (h : scan programOptions false (front ++ typed :: rest) = .ok ⟨given, typed :: rest⟩) (terminal : Bool) :
    EndAlike terminal (run w (front ++ typed :: rest)) (run w (front ++ typed :: Opt.json.name.toList :: rest)) := by
  rw [CommandLine.run_eq, CommandLine.run_eq, remarks_behind h]
  apply EndAlike.after
  rcases alike_invocation_json h w.env w.files with ⟨e, he, he'⟩ | ⟨i, i', hi, hi', hasks⟩
  · rw [he, he']
    exact .refl terminal _
  · rw [hi, hi']
    cases hasks with
    | help c => exact .refl terminal _
    | version => exact .refl terminal _
    | task t asJson => exact Task.endAlike_json hplain t terminal asJson

/-- Asking for JSON changes the presentation only. With the switch right behind the name of the command a run starts the
same processes and ends in the same way, as long as processes write no surrogates. A value that is shown over several
lines is the one that the outcome tells, and without a value nothing is on the output stream for people. -/
theorem run_json_or_not (hplain : ∀ spawn, (w.runner spawn).Plain)
    (h : scan programOptions false (front ++ typed :: rest) = .ok ⟨given, typed :: rest⟩) (terminal : Bool) :
    ((run w (front ++ typed :: "--json".toList :: rest)).finish terminal).status =
        ((run w (front ++ typed :: rest)).finish terminal).status ∧
      ((run w (front ++ typed :: "--json".toList :: rest)).finish terminal).spawns =
        ((run w (front ++ typed :: rest)).finish terminal).spawns ∧
      ∀ task, invocation w.env w.files (front ++ typed :: rest) = .ok (.task task false) →
        (∀ v label, task.Gives w v → task.label? = some label →
          ∃ line, ((run w (front ++ typed :: "--json".toList :: rest)).finish terminal).output = line ++ ['\n'] ∧
            Json.read line = .ok (.object [("ok", .bool true), ("data", v)]) ∧
            ShownAs label v ((run w (front ++ typed :: rest)).finish terminal).output) ∧
        ((∀ v, ¬ task.Gives w v) → ((run w (front ++ typed :: rest)).finish terminal).output = []) := by
  have halike := endAlike_json hplain h terminal
  refine ⟨halike.status.symm, halike.spawns.symm, fun task hasked => ?_⟩
  have hrun : ((run w (front ++ typed :: rest)).finish terminal).output =
      ((task.run w false).finish terminal).output := by
    rw [CommandLine.run_eq, hasked, Run.finish_after]
    rfl
  have hjson : invocation w.env w.files (front ++ typed :: "--json".toList :: rest) = .ok (.task task true) := by
    rcases alike_invocation_json h w.env w.files with ⟨e, he, -⟩ | ⟨i, i', hi, hi', hasks⟩
    · rw [hasked] at he
      cases he
    · rw [hasked] at hi
      cases hi
      cases hasks
      exact hi'
  refine ⟨fun v label hgives hlabel => ?_, fun hnone => ?_⟩
  · obtain ⟨line, -, hread, hfinish⟩ := Task.says_of_gives hgives
    refine ⟨line, ?_, hread, ?_⟩
    · rw [CommandLine.run_eq, hjson, Run.finish_after]
      exact (hfinish terminal).1
    · rw [hrun]
      exact hgives.shownAs hlabel terminal
  · rw [hrun]
    exact Task.output_of_not_gives hnone terminal

/-- An answer with an object. -/
def objectAnswer : List Char := "\x7b\"ok\": true, \"data\": \x7b\"mode\": \"vpn\"\x7d\x7d".toList

/-- An installation where every process gives this answer. -/
def objectWorld : World := ⟨⟨[]⟩, "/opt", fun _ => none, fun _ => .exited 0 (some (Utf8.encode objectAnswer)) none⟩

theorem run_json_or_not_object : ∃ line t,
    ((run objectWorld ["--".toList, "set-mode".toList, "--json".toList, "vpn".toList]).finish false).output =
      line ++ ['\n'] ∧
    Json.read line = .ok (.object [("ok", .bool true), ("data", .object [("mode", .str "vpn")])]) ∧
    ((run objectWorld ["--".toList, "set-mode".toList, "vpn".toList]).finish false).output = t ++ ['\n'] ∧
    Json.read t = .ok (.object [("mode", .str "vpn")]) := by
  have hplain : ∀ spawn, (objectWorld.runner spawn).Plain := by
    intro spawn status stdout stderr out v ho hdecode hread
    cases ho
    obtain rfl : objectAnswer = out := Utf8.encode_injective (Utf8.decode?_eq_ok_iff.mp hdecode)
    have hvalue : Json.read (Blank.trim objectAnswer) =
        .ok (.object [("ok", .bool true), ("data", .object [("mode", .str "vpn")])]) := by rfl
    rw [hvalue] at hread
    cases hread
    have hdata : Json.OfCharacters (.object [("mode", .str "vpn")]) :=
      .object (by simp) (List.forall_mem_singleton.mpr (.str (Text.ofCharacters_ofString _)))
    exact .object (by simp) (by simpa using ⟨.bool true, hdata⟩)
  have hscan : scan programOptions false (["--".toList] ++ "set-mode".toList :: ["vpn".toList]) =
      .ok ⟨[], "set-mode".toList :: ["vpn".toList]⟩ := by rfl
  have hasked : invocation objectWorld.env objectWorld.files (["--".toList] ++ "set-mode".toList :: ["vpn".toList]) =
      .ok (.task (.setMode .vpn) false) := by rfl
  have hresult : (objectWorld.perform .setMode [("mode", .str "vpn")]).result =
      .ok (.object [("mode", .str "vpn")]) := by rfl
  obtain ⟨-, -, hshown⟩ := run_json_or_not hplain hscan false
  obtain ⟨line, hline, hread, hpeople⟩ := (hshown _ hasked).1 _ _ ⟨_, _, rfl, hresult⟩ rfl
  cases hpeople with
  | completed hnull => cases hnull
  | @indented t _ houtput _ hindented => exact ⟨line, t, hline, hread, houtput, hindented⟩

end AgentBridge.CommandLine
