import AgentBridge.Text

/-
  AgentBridge.Log — what the program says about its own work.

  An entry has a level and a text. Its line starts with a word that depends on the level;
  entries below the level of debugging have no line. Lines go to the error stream, so that
  the output stream holds results only. Debugging entries are made only while debugging is on.
-/

namespace AgentBridge

structure LogEntry where
  level : Nat
  text : Text
  deriving DecidableEq, Repr

namespace LogEntry

def debugLevel : Nat := 10

def warningLevel : Nat := 30

def errorLevel : Nat := 40

def warning (text : Text) : LogEntry := ⟨warningLevel, text⟩

/-- The word in front of an entry's text: for debugging and warnings at their exact level,
for errors from their level on. -/
def label (e : LogEntry) : Text :=
  if e.level = debugLevel then "DEBUG: "
  else if errorLevel ≤ e.level then "Error: "
  else if e.level = warningLevel then "Warning: "
  else []

/-- The line of an entry, with the line feed at its end. -/
def line (e : LogEntry) : Text :=
  if e.level < debugLevel then [] else e.label ++ e.text ++ [.char '\n']

end LogEntry

namespace Log

/-- A debugging remark, if debugging is on. -/
def debug (on : Bool) (text : Text) : List LogEntry :=
  if on then [⟨LogEntry.debugLevel, text⟩] else []

def lines (log : List LogEntry) : Text := log.flatMap LogEntry.line

@[simp] theorem debug_false (text : Text) : debug false text = [] := rfl

@[simp] theorem lines_append (a b : List LogEntry) : lines (a ++ b) = lines a ++ lines b :=
  List.flatMap_append

end Log

end AgentBridge
