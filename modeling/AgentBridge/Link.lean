import AgentBridge.Shape
import AgentBridge.Text.Blank
import AgentBridge.Text.Lowercase
import AgentBridge.Url

/-
  AgentBridge.Link — import links.

  An import link asks to import a token from a control panel:
  `xraycp://import?baseUrl=..&token=..`. The action may stand in the place of the host or, in
  a link without one, in the path. A link is checked from the outside in: its form, scheme
  and action, then that both parameters are there, then the base address, then the token. The
  first check that fails gives the reason.

  Of several links the first valid one counts (`firstValid`); those before it are rejected,
  each with its reason, and those after it are not looked at.
-/

namespace AgentBridge

structure Link where
  baseUrl : List Char
  token : List Char
  deriving DecidableEq, Repr

inductive LinkError where
  | unreadable (f : AuthorityFault)
  | noScheme
  | otherScheme
  | otherAction
  | noBaseUrl
  | noToken
  | unreadableBaseUrl (f : AuthorityFault)
  | baseUrlWithoutScheme
  | baseUrlOtherScheme
  | baseUrlWithoutAuthority
  | badToken
  deriving DecidableEq, Repr

namespace LinkError

def message : LinkError → String
  | .unreadable _ | .noScheme => "Malformed deep link URL"
  | .otherScheme => "Unsupported deep link scheme"
  | .otherAction => "Unsupported deep link action"
  | .noBaseUrl => "Missing baseUrl parameter"
  | .noToken => "Missing token parameter"
  | .unreadableBaseUrl _ | .baseUrlWithoutScheme | .baseUrlWithoutAuthority =>
    "Invalid baseUrl parameter"
  | .baseUrlOtherScheme => "baseUrl must use http or https"
  | .badToken => "Invalid token format"

/-- The fault of an address that could not be cut into its parts. -/
def addressFault? : LinkError → Option AuthorityFault
  | .unreadable f | .unreadableBaseUrl f => some f
  | _ => none

end LinkError

namespace Link

def scheme : List Char := "xraycp".toList

def action : List Char := "import".toList

def baseSchemes : List (List Char) := ["http".toList, "https".toList]

def tokenLength : Nat := 16

def isTokenChar (c : Char) : Bool := c.isAlphanum || c == '_' || c == '-'

/-- A text without the line feed at its end, if it has one. -/
def withoutLineFeed (cs : List Char) : List Char :=
  if cs.getLast? = some '\n' then cs.dropLast else cs

/-- Whether a text is a token; a line feed at its end does not count. -/
def isToken (cs : List Char) : Bool :=
  let token := withoutLineFeed cs
  tokenLength ≤ token.length && token.all isTokenChar

/-- The action of a link, in small letters: its host, or else its path without the slashes in
front. -/
def actionOf (u : Url) : List Char :=
  Lowercase.lower (if u.host.isEmpty then u.path.dropWhile (· == '/') else u.host)

/-- The value of a parameter, without blanks around it. -/
def parameter (q : Query) (key : String) : List Char := Blank.trim (q.first key.toList)

def checkBaseUrl (cs : List Char) : Except LinkError Unit :=
  match Url.split cs with
  | .error f => .error (.unreadableBaseUrl f)
  | .ok u =>
    if u.scheme.isEmpty then .error .baseUrlWithoutScheme
    else if !baseSchemes.contains u.scheme then .error .baseUrlOtherScheme
    else if u.authority.isEmpty then .error .baseUrlWithoutAuthority
    else .ok ()

/-- Check that an address is one of an import link, and give its parameters. -/
def queryOf (cs : List Char) : Except LinkError Query :=
  match Url.split (Blank.trim cs) with
  | .error f => .error (.unreadable f)
  | .ok u =>
    if u.scheme.isEmpty then .error .noScheme
    else if u.scheme != scheme then .error .otherScheme
    else if actionOf u != action then .error .otherAction
    else .ok (Query.ofChars u.query)

def ofQuery (q : Query) : Except LinkError Link :=
  let baseUrl := parameter q "baseUrl"
  let token := parameter q "token"
  if baseUrl.isEmpty then .error .noBaseUrl
  else if token.isEmpty then .error .noToken
  else match checkBaseUrl baseUrl with
    | .error e => .error e
    | .ok () => if isToken token then .ok ⟨baseUrl, token⟩ else .error .badToken

def read (cs : List Char) : Except LinkError Link := do ofQuery (← queryOf cs)

/-- The first valid link of several, and the rejected ones before it. -/
def firstValid : List (List Char) → Option Link × List (List Char × LinkError)
  | [] => (none, [])
  | cs :: rest =>
    match read cs with
    | .ok link => (some link, [])
    | .error e =>
      let (link, rejected) := firstValid rest
      (link, (cs, e) :: rejected)

end Link

/-! ## Links as records -/

/-- The fields of an import link that came as JSON. -/
structure LinkFields where
  baseUrl : Text
  token : Text
  deriving DecidableEq

namespace LinkFields

def ofJson : Json → Checked LinkFields :=
  Shape.record "ImportLink" fun m =>
    LinkFields.mk <$> Shape.required m "base_url" Rule.text <*> Shape.required m "token" Rule.text

def toJson (l : LinkFields) : Json :=
  .object [("base_url", .str l.baseUrl), ("token", .str l.token)]

end LinkFields

end AgentBridge
