import AgentBridge.Proofs.Commands
import AgentBridge.Proofs.Tasks

/-
  AgentBridge.Proofs.ShortNames — a command typed by a short name is the command.

  A name in front of all other arguments is the one that is typed, and what stands behind it
  has no part in that (`scan_name`). A short name and the name of its command are typed for
  the same command, so they ask for the same (`invocation_short`), be it a task, a page of
  help or something that is at fault. Only the remark about the short name tells them apart,
  so a run shows the line of the remark and then what the command shows (`finish_short`).
-/

namespace AgentBridge.CommandLine

namespace Command

/-- A short name and the name of its command are both typed for it. -/
theorem ofTyped?_short : ∀ a ∈ aliases, ofTyped? a.1.toList = some a.2 := by decide

theorem ofTyped?_name (c : Command) : ofTyped? c.name.toList = some c := by
  cases c <;> decide

theorem ofAlias?_short : ∀ a ∈ aliases, ofAlias? a.1.toList = some a.2 := by decide

/-- The name of a command is no short name. -/
theorem ofAlias?_name (c : Command) : ofAlias? c.name.toList = none := by
  cases c <;> decide

end Command

/-- What is typed for a command is no option and does not end the options. -/
theorem scan_name {typed : List Char} {c : Command} (h : Command.ofTyped? typed = some c) (rest : List (List Char)) :
    scan programOptions false (typed :: rest) = .ok ⟨[], typed :: rest⟩ := by
  have hplain : typed ≠ optionsEnd ∧ isOption typed = false := by
    rcases Option.or_eq_some_iff.mp h with hshort | ⟨-, hname⟩
    · obtain ⟨a, ha, -⟩ := Option.map_eq_some_iff.mp hshort
      have hall : ∀ a ∈ Command.aliases, a.1.toList ≠ optionsEnd ∧ isOption a.1.toList = false := by decide
      have htyped : a.1.toList = typed := by simpa using List.find?_some ha
      rw [← htyped]
      exact hall a (List.mem_of_find?_eq_some ha)
    · have hall : ∀ c ∈ Command.all, c.name.toList ≠ optionsEnd ∧ isOption c.name.toList = false := by decide
      have htyped : c.name.toList = typed := by simpa using List.find?_some hname
      rw [← htyped]
      exact hall c (List.mem_of_find?_eq_some hname)
  rw [scan, if_neg hplain.1, hplain.2]
  rfl

section

variable {short : String} {c : Command} (h : (short, c) ∈ Command.aliases)

include h

/-- A short name asks for what the name of its command asks for. -/
theorem invocation_short (env : Environment) (files : Files) (rest : List (List Char)) :
    invocation env files (short.toList :: rest) = invocation env files (c.name.toList :: rest) := by
  have hshort := Command.ofTyped?_short (short, c) h
  have hname := Command.ofTyped?_name c
  rw [invocation_of_typed (scan_name hshort rest) hshort, invocation_of_typed (scan_name hname rest) hname]

/-- A short name is remarked on. -/
theorem remarks_short (debug : Bool) (rest : List (List Char)) :
    remarks debug (short.toList :: rest) = Log.debug debug (aliasRemark short.toList c) := by
  have hshort := Command.ofTyped?_short (short, c) h
  have halias := Command.ofAlias?_short (short, c) h
  simp only [remarks, scan_name hshort rest, aliasRemarks, halias]

end

/-- The name of a command is not. -/
theorem remarks_name (debug : Bool) (c : Command) (rest : List (List Char)) :
    remarks debug (c.name.toList :: rest) = [] := by
  simp only [remarks, scan_name (Command.ofTyped?_name c) rest, aliasRemarks, Command.ofAlias?_name]

/-- The line that tells which command a short name stands for. -/
def aliasLine (short : String) (c : Command) : List Char :=
  ("DEBUG: Alias '" ++ short ++ "' -> '" ++ c.name ++ "' with args []\n").toList

theorem shown_aliasRemark (debug : Bool) (short : String) (c : Command) :
    Log.shown (Log.debug debug (aliasRemark short.toList c)) = if debug then aliasLine short c else [] := by
  cases debug with
  | false => rfl
  | true =>
    have hline : LogEntry.line ⟨LogEntry.debugLevel, aliasRemark short.toList c⟩ =
        Text.ofChars (aliasLine short c) := by
      simp [LogEntry.line, LogEntry.label, aliasRemark, aliasLine, Text.ofString]
    rw [Log.debug, if_pos rfl, Log.shown, List.flatMap_singleton, hline, Utf8.characters_ofChars]
    rfl

/-- What is seen of a run, with something more at the front of the error stream. -/
def Finish.behind (shown : List Char) (f : Finish) : Finish := { f with errors := shown ++ f.errors }

/-- A command line that begins with a short name ends as the one with the name of the command does, prints the same
on the output stream and starts the same processes. The error stream is the same, too, except that with debugging on
the line about the short name comes before everything else. -/
theorem finish_short {short : String} {c : Command} (h : (short, c) ∈ Command.aliases) (w : World)
    (rest : List (List Char)) (terminal : Bool) :
    (run w (short.toList :: rest)).finish terminal =
      ((run w (c.name.toList :: rest)).finish terminal).behind
        (if w.env.get? "XRAY_DESKTOP_DEBUG" = some "1" then aliasLine short c else []) := by
  rw [CommandLine.run_eq, CommandLine.run_eq, remarks_short h, remarks_name, invocation_short h, Run.finish_after,
    Run.after_nil, shown_aliasRemark]
  simp only [Environment.debug, decide_eq_true_eq]
  rfl

set_option maxRecDepth 2000 in
/-- A backend that refuses, with debugging on: what is logged about it stands behind the line about the short name. -/
theorem finish_short_refused :
    ∃ w f named, w = (⟨⟨[("XRAY_DESKTOP_DEBUG", "1")]⟩, "/opt", fun _ => none, fun _ => .exited 0
        (some (Utf8.encode "\x7b\"ok\": false, \"error\": \"busy\"\x7d".toList)) none⟩ : World) ∧
      f = (run w ["up".toList, "--json".toList]).finish false ∧
      named = (run w ["connect".toList, "--json".toList]).finish false ∧
      ("up", Command.connect) ∈ Command.aliases ∧
      f = named.behind "DEBUG: Alias 'up' -> 'connect' with args []\n".toList ∧ named.status = .ok 1 ∧
      named.output = "\x7b\"ok\": false, \"error\": \"busy\"\x7d\n".toList ∧
      named.errors = ("DEBUG: bridge connect: node /opt/backend/desktop-bridge.cjs\n" ++
        "DEBUG: bridge connect: exit 0\nDEBUG: connect failed: BackendError\n").toList ∧
      named.spawns = [⟨["node", "/opt/backend/desktop-bridge.cjs", "connect", "\x7b\x7d"], none⟩] := by
  have hmem : ("up", Command.connect) ∈ Command.aliases := by decide
  refine ⟨_, _, _, rfl, rfl, rfl, hmem, ?_, ?_, ?_, ?_, ?_⟩
  · exact finish_short hmem _ ["--json".toList] false
  · rfl
  · rfl
  · rfl
  · rfl

end AgentBridge.CommandLine
