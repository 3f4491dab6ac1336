import AgentBridge.Json.Value
import AgentBridge.Text.Blank
import AgentBridge.Text.Lowercase
import AgentBridge.Text.Pattern

/-
  AgentBridge.Disguise — the disguise of a server as a well-known domain.

  A domain is a name of at most 253 characters that does not start with a hyphen: two or more
  labels, separated by points, of ASCII letters, digits and hyphens. What the user types is
  trimmed and put in small letters first. The disguise for a domain names it as the server
  and sends traffic to its secure web service.
-/

namespace AgentBridge

namespace Domain

def lengthLimit : Nat := 253

def isLabelChar (c : Char) : Bool := c.isAlphanum || c == '-'

/-- Not too long, up to the end. -/
def short : Pattern :=
  .ahead (.next (.repeated ⟨1, some lengthLimit, by decide⟩ (.one (· != '\n'))) .finish)

def label : Pattern := .repeated .onceOrMore (.one isLabelChar)

/-- Two labels or more with points between them, up to the end. -/
def labels : Pattern :=
  .next label (.next (.repeated .onceOrMore (.next (.one (· == '.')) label)) .finish)

/-- The form of a domain. -/
def form : Pattern := .next short (.next (.notAhead (.one (· == '-'))) labels)

def isDomain (cs : List Char) : Bool := form.accepts cs

/-- A name as it is compared: trimmed and in small letters. -/
def normal (cs : List Char) : List Char := Lowercase.lower (Blank.trim cs)

/-- The domain that a user has typed. -/
def read? (cs : List Char) : Option (List Char) :=
  if isDomain (normal cs) then some (normal cs) else none

def malformed : String := "Invalid domain format"

end Domain

namespace Disguise

/-- The number of the service that a disguised server imitates. -/
def service : String := ":443"

def fingerprint : String := "chrome"

def ofDomain (domain : List Char) : Members Empty :=
  [("serverName", .str (Text.ofChars domain)),
   ("dest", .str (Text.ofChars domain ++ (service : Text))),
   ("fingerprint", .str fingerprint)]

end Disguise

end AgentBridge
