import AgentBridge.CommandLine.Command
import AgentBridge.Text.Pieces
import AgentBridge.Text.Quoted

/-
  AgentBridge.CommandLine.Usage — what can be wrong with a command line.
-/

namespace AgentBridge.CommandLine

inductive UsageError where
  /-- An option that is not known, with the names that are similar to it. -/
  | noSuchOption (typed : List Char) (similar : List String)
  /-- An option without the value that it needs. -/
  | needsValue (o : Opt)
  /-- A switch with a value. -/
  | takesNoValue (o : Opt)
  /-- A required option that is not given. -/
  | missingOption (o : Opt)
  /-- A positional argument that is not given. -/
  | missingArgument (p : Positional)
  /-- A mode that there is not. -/
  | noSuchMode (typed : List Char)
  /-- What is given as a path holds the character NUL, so no file can be looked up under it. -/
  | noPath (o : Opt) (path : List Char)
  /-- A path to nothing. -/
  | noSuchFile (o : Opt) (path : List Char)
  /-- A path to a folder. -/
  | isFolder (o : Opt) (path : List Char)
  /-- Arguments that nothing asks for. -/
  | extraArguments (arguments : List (List Char))
  /-- A command that there is not. -/
  | noSuchCommand (typed : List Char)
  deriving DecidableEq, Repr

namespace UsageError

def quotedWord (cs : List Char) : Text := Text.ofChars (Text.ofString (String.ofList cs)).quoted

def inQuotes (name : String) : Text := ("'" ++ name ++ "'" : String)

/-- The words about names that are similar to what was typed. -/
def hint : List String → Text
  | [] => []
  | [name] => " Did you mean " ++ inQuotes name ++ "?"
  | names => " (Did you mean one of: " ++ joinWith ", " (names.map inQuotes) ++ "?)"

/-- The choices for a positional argument, as they are listed where it is missing. -/
def choices : Positional → Text
  | .mode => " Choose from:\n\t" ++ joinWith ",\n\t" (Mode.all.map fun m => Text.ofString m.name)
  | .urls => []

def message : UsageError → Text
  | .noSuchOption typed similar => "No such option " ++ quotedWord typed ++ "." ++ hint similar
  | .needsValue o => "Option " ++ inQuotes o.name ++ " requires an argument."
  | .takesNoValue o => "Option " ++ inQuotes o.name ++ " does not take a value."
  | .missingOption o => "Missing option " ++ inQuotes o.name ++ "."
  | .missingArgument p => "Missing argument " ++ inQuotes p.label ++ "." ++ choices p
  | .noSuchMode typed =>
    "Invalid value for " ++ inQuotes Positional.mode.label ++ ": " ++ quotedWord typed ++
      " is not one of " ++ joinWith ", " (Mode.all.map fun m => inQuotes m.name) ++ "."
  | .noPath _ _ => "embedded null byte"
  | .noSuchFile o path =>
    "Invalid value for " ++ inQuotes o.name ++ ": File " ++ quotedWord path ++ " does not exist."
  | .isFolder o path =>
    "Invalid value for " ++ inQuotes o.name ++ ": File " ++ quotedWord path ++ " is a directory."
  | .extraArguments arguments =>
    (match arguments with
      | [_] => "Got unexpected extra argument ("
      | _ => "Got unexpected extra arguments (" : Text) ++
      joinWith " " (arguments.map Text.ofChars) ++ ")"
  | .noSuchCommand typed =>
    "Unknown command '" ++ Text.ofChars typed ++ "'. Run '" ++ programName ++
      " --help' for available commands."

end UsageError

end AgentBridge.CommandLine
