import AgentBridge.CommandLine.Command

/-
  AgentBridge.CommandLine.Help — the help pages.

  A page is a list of blocks with an empty line between them: how to call the program, what
  it is for, and tables of the options and commands. Paragraphs are broken between words so
  that no line is wider than the page; a command's summary that does not fit beside its name
  is cut after a word and ends with dots.
-/

namespace AgentBridge.CommandLine.Help

def pageWidth : Nat := 78

def blanks (n : Nat) : String := String.ofList (List.replicate n ' ')

/-! ## Lines -/

/-- Add a word to the lines so far, of which the last one comes first. -/
def addWord (width : Nat) (lines : List String) (word : String) : List String :=
  match lines with
  | [] => [word]
  | line :: before =>
    if line.length + 1 + word.length ≤ width then (line ++ " " ++ word) :: before
    else word :: line :: before

def words (text : String) : List String := text.splitOn " "

def wrap (width : Nat) (text : String) : List String :=
  ((words text).foldl (addWord width) []).reverse

/-- A text with so many words at most that there is room for dots behind them. -/
def cutTo (width : Nat) : (kept : String) → List String → String
  | kept, [] => kept
  | kept, word :: rest =>
    let longer := if kept.isEmpty then word else kept ++ " " ++ word
    if longer.length + 3 ≤ width then cutTo width longer rest else kept ++ "..."

/-- A text that is cut if it is wider than allowed. -/
def brief (width : Nat) (text : String) : String :=
  if text.length ≤ width then text else cutTo width "" (words text)

/-- Two columns, the second of which starts two blanks behind the widest entry of the first. -/
def table (rows : List (String × String)) : List String :=
  let width := rows.foldl (fun w row => max w row.1.length) 0
  rows.map fun (left, right) => "  " ++ left ++ blanks (width - left.length + 2) ++ right

/-! ## Blocks -/

/-- A paragraph, indented. -/
def paragraph (text : String) : List String := (wrap (pageWidth - 2) text).map ("  " ++ ·)

def optionRow (o : Opt) : String × String :=
  (match o.label? with
    | some label => o.name ++ " " ++ label
    | none => o.name,
   if o.isRequired then o.about ++ "  [required]" else o.about)

def optionBlock (options : List Opt) : List String := "Options:" :: table (options.map optionRow)

/-- The width of the summaries beside the names of the commands. -/
def summaryWidth : Nat :=
  pageWidth - 6 - Command.all.foldl (fun w c => max w c.name.length) 0

def commandRow (c : Command) : String × String :=
  (c.name, brief summaryWidth (c.about.headD ""))

def commandBlock : List String := "Commands:" :: table (Command.all.map commandRow)

/-! ## Pages -/

/-- Blocks with an empty line between them. -/
def join (blocks : List (List String)) : String :=
  "\n\n".intercalate (blocks.map ("\n".intercalate ·))

def programPage : String :=
  join
    [["Usage: " ++ programName ++ " [OPTIONS] [COMMAND] [ARGS]..."],
     paragraph (programName ++ " - drive the connection agent through its bridge."),
     optionBlock programOptions,
     commandBlock]

def usage (c : Command) : String :=
  let call := "Usage: " ++ programName ++ " " ++ c.name ++ " [OPTIONS]"
  match c.positional? with
  | some p => call ++ " " ++ p.label
  | none => call

def commandPage (c : Command) : String :=
  join ([usage c] :: c.about.map paragraph ++ [optionBlock c.options])

end AgentBridge.CommandLine.Help
