import AgentBridge.Shape

/-
  AgentBridge.Request — the payloads of the operations that take arguments.

  Each request has a wire form with the backend's field names. The arguments may be given
  under those names or under the callers' names; no other names are allowed, and every field
  has to be there. The wire form lists the fields in their order, whatever the order of the
  arguments was.
-/

namespace AgentBridge

/-- Import a share token that the control panel at `baseUrl` issued. -/
structure ImportRequest where
  baseUrl : Text
  token : Text
  deriving DecidableEq

namespace ImportRequest

def ofMembers (m : Members Empty) : Checked ImportRequest :=
  Shape.closed m [Shape.spelling m "baseUrl" "base_url", "token"]
    (ImportRequest.mk <$> Shape.requiredAs m "baseUrl" "base_url" Rule.text
      <*> Shape.required m "token" Rule.text)

def ofJson : Json → Checked ImportRequest := Shape.record "ImportTokenPayload" ofMembers

/-- The wire form. -/
def toJson (r : ImportRequest) : Json :=
  .object [("baseUrl", .str r.baseUrl), ("token", .str r.token)]

end ImportRequest

structure ModeRequest where
  mode : Text
  deriving DecidableEq

namespace ModeRequest

def ofMembers (m : Members Empty) : Checked ModeRequest :=
  Shape.closed m ["mode"] (ModeRequest.mk <$> Shape.required m "mode" Rule.text)

def ofJson : Json → Checked ModeRequest := Shape.record "SetModePayload" ofMembers

/-- The wire form. -/
def toJson (r : ModeRequest) : Json := .object [("mode", .str r.mode)]

end ModeRequest

structure DisguiseRequest where
  baseUrl : Text
  serverId : Text
  adminApiKey : Text
  disguise : Members Empty

namespace DisguiseRequest

def ofMembers (m : Members Empty) : Checked DisguiseRequest :=
  Shape.closed m
    [Shape.spelling m "baseUrl" "base_url", Shape.spelling m "serverId" "server_id",
      Shape.spelling m "adminApiKey" "admin_api_key", "disguise"]
    (DisguiseRequest.mk <$> Shape.requiredAs m "baseUrl" "base_url" Rule.text
      <*> Shape.requiredAs m "serverId" "server_id" Rule.text
      <*> Shape.requiredAs m "adminApiKey" "admin_api_key" Rule.text
      <*> Shape.required m "disguise" Rule.object)

def ofJson : Json → Checked DisguiseRequest := Shape.record "UpdateDisguisePayload" ofMembers

/-- The wire form. -/
def toJson (r : DisguiseRequest) : Json :=
  .object [("baseUrl", .str r.baseUrl), ("serverId", .str r.serverId),
    ("adminApiKey", .str r.adminApiKey), ("disguise", .object r.disguise)]

end DisguiseRequest

end AgentBridge
