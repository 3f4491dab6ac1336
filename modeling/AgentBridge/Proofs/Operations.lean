import AgentBridge.Operation
import AgentBridge.Proofs.Calls
import AgentBridge.Proofs.Shapes
import AgentBridge.Proofs.Writable

/-
  AgentBridge.Proofs.Operations — each operation makes the one call that is documented for it.

  The payload of an operation has the arguments as they were given, under the names that the
  backend knows and in their order (`wire`), and there is one exactly where the arguments have
  the right shape (`pack_eq_ok_iff`). Where it has a text, too, one process is started with it
  (`run_of_suitable`). The action on its command line is the one that the table has for the
  operation, and what the process means is handed on or, if the table has no value for it,
  dropped (`Sent`). Otherwise nothing is started (`runNamed_of_proper`).
-/

namespace AgentBridge

theorem Text.ofString_inj {s t : String} : Text.ofString s = Text.ofString t ↔ s = t := by
  have hchar : Function.Injective CodePoint.char := by
    intro a b h
    cases h
    rfl
  rw [Text.ofString, Text.ofString, Text.ofChars, Text.ofChars, (List.map_injective_iff.mpr hchar).eq_iff,
    String.toList_inj]

namespace Operation

variable {op : Operation} {args : Members Empty}

/-! ## What is documented -/

/-- The names that the backend knows the arguments by, in order. -/
def wireNames : Operation → List String
  | .importToken => ["baseUrl", "token"]
  | .setMode => ["mode"]
  | .updateDisguise => ["baseUrl", "serverId", "adminApiKey", "disguise"]
  | _ => []

/-- The arguments as they were given, each under the backend's name. -/
def wire (op : Operation) (args : Members Empty) : Members Empty :=
  (op.wireNames.zip op.parameters).map fun (name, p) => (Text.ofString name, argument args p)

/-- All arguments are given: a disguise as an object, the others as texts. -/
structure Shaped (op : Operation) (args : Members Empty) : Prop where
  given : ∀ p ∈ op.parameters, argument args p ≠ .null
  text : ∀ p ∈ op.parameters, p ≠ "disguise" → ∃ t, argument args p = .str t
  object : ∀ p ∈ op.parameters, p = "disguise" → ∃ m, argument args p = .object m

/-- The arguments have their shape, and JSON text can say them. -/
structure Suitable (op : Operation) (args : Members Empty) : Prop extends Shaped op args where
  writable : ∀ p ∈ op.parameters, Json.Writable (argument args p)

/-! ## Arguments -/

theorem keys_arguments : (op.arguments args).keys = op.parameters.map Text.ofString := by
  simp [arguments, Members.keys]

theorem mem_keys_arguments {p : String} : Text.ofString p ∈ (op.arguments args).keys ↔ p ∈ op.parameters := by
  rw [keys_arguments]
  constructor
  · intro h
    obtain ⟨p', hp', he⟩ := List.mem_map.mp h
    rw [Text.ofString_inj] at he
    rwa [he] at hp'
  · intro h
    exact List.mem_map_of_mem h

/-- An argument is found under its name. -/
theorem get?_arguments {p : String} (h : p ∈ op.parameters) :
    (op.arguments args).get? (Text.ofString p) = some (argument args p) := by
  unfold arguments
  generalize op.parameters = ps at h
  induction ps with
  | nil => cases h
  | cons q rest ih =>
    rw [List.map_cons, Members.get?]
    by_cases hq : q = p
    · rw [if_pos (Text.ofString_inj.mpr hq), hq]
    · rw [if_neg fun he => hq (Text.ofString_inj.mp he)]
      rcases List.mem_cons.mp h with he | h
      · exact absurd he.symm hq
      · exact ih h

theorem missing_eq_nil_iff :
    missing (op.arguments args) = [] ↔ ∀ p ∈ op.parameters, argument args p ≠ .null := by
  have hnull : ∀ v : Json, isNull v = true ↔ v = .null := by
    intro v
    cases v <;> simp [isNull]
  simp [missing, arguments, hnull]

variable {α : Type} {rule : Rule α} {a : α}

theorem required_arguments {p : String} (h : p ∈ op.parameters) :
    Shape.required (op.arguments args) (Text.ofString p) rule = .ok a ↔ rule (argument args p) = .ok a := by
  rw [Shape.required_eq_ok_iff, get?_arguments h]
  simp

theorem spelling_arguments {wire p : String} (hw : wire ∉ op.parameters) (h : p ∈ op.parameters) :
    Shape.spelling (op.arguments args) (Text.ofString wire) (Text.ofString p) = Text.ofString p :=
  Shape.spelling_eq_name (fun hk => hw (mem_keys_arguments.mp hk)) (mem_keys_arguments.mpr h)

theorem requiredAs_arguments {wire p : String} (hw : wire ∉ op.parameters) (h : p ∈ op.parameters) :
    Shape.requiredAs (op.arguments args) (Text.ofString wire) (Text.ofString p) rule = .ok a ↔
      rule (argument args p) = .ok a := by
  rw [Shape.requiredAs, spelling_arguments hw h, required_arguments h]

/-- The names of the arguments are all that a closed record with a field for each of them sees. -/
theorem closed_arguments (op : Operation) {fields : Checked α} :
    Shape.closed (op.arguments args) (op.parameters.map Text.ofString) fields = .ok a ↔ fields = .ok a := by
  rw [Shape.closed_eq_ok_iff, keys_arguments]
  constructor
  · intro h
    exact h.2.1
  · intro h
    refine ⟨?_, h, fun key hk => hk⟩
    intro key hk
    obtain ⟨p, -, rfl⟩ := List.mem_map.mp hk
    rw [Text.ofString, Text.toChars?_ofChars]
    rfl

/-! ## Payloads -/

theorem checked_eq_ok_iff {toJson : α → Json} {x : Checked α} {v : Json} :
    checked toJson x = .ok v ↔ ∃ a, x = .ok a ∧ toJson a = v := by
  cases x <;> simp [checked]

theorem importRequest_eq_ok_iff {r : ImportRequest} :
    ImportRequest.ofMembers (importToken.arguments args) = .ok r ↔
      argument args "base_url" = .str r.baseUrl ∧ argument args "token" = .str r.token := by
  have hbase : "base_url" ∈ importToken.parameters := by decide
  have htoken : "token" ∈ importToken.parameters := by decide
  have hwire : "baseUrl" ∉ importToken.parameters := by decide
  rw [ImportRequest.ofMembers, spelling_arguments hwire hbase]
  refine (closed_arguments importToken).trans ?_
  simp only [Checked.seq_eq_ok_iff, Checked.map_eq_ok_iff, requiredAs_arguments hwire hbase,
    required_arguments htoken, Rule.text_eq_ok_iff]
  constructor
  · intro h
    obtain ⟨_, t, ⟨b, hb, rfl⟩, ht, rfl⟩ := h
    exact ⟨hb, ht⟩
  · intro h
    exact ⟨_, r.token, ⟨r.baseUrl, h.1, rfl⟩, h.2, rfl⟩

theorem modeRequest_eq_ok_iff {r : ModeRequest} :
    ModeRequest.ofMembers (setMode.arguments args) = .ok r ↔ argument args "mode" = .str r.mode := by
  have hmode : "mode" ∈ setMode.parameters := by decide
  refine (closed_arguments setMode).trans ?_
  simp only [Checked.map_eq_ok_iff, required_arguments hmode, Rule.text_eq_ok_iff]
  constructor
  · intro h
    obtain ⟨t, ht, rfl⟩ := h
    exact ht
  · intro h
    exact ⟨r.mode, h, rfl⟩

theorem disguiseRequest_eq_ok_iff {r : DisguiseRequest} :
    DisguiseRequest.ofMembers (updateDisguise.arguments args) = .ok r ↔
      argument args "base_url" = .str r.baseUrl ∧ argument args "server_id" = .str r.serverId ∧
        argument args "admin_api_key" = .str r.adminApiKey ∧ argument args "disguise" = .object r.disguise := by
  have hbase : "base_url" ∈ updateDisguise.parameters := by decide
  have hserver : "server_id" ∈ updateDisguise.parameters := by decide
  have hkey : "admin_api_key" ∈ updateDisguise.parameters := by decide
  have hdisguise : "disguise" ∈ updateDisguise.parameters := by decide
  have hwireBase : "baseUrl" ∉ updateDisguise.parameters := by decide
  have hwireServer : "serverId" ∉ updateDisguise.parameters := by decide
  have hwireKey : "adminApiKey" ∉ updateDisguise.parameters := by decide
  rw [DisguiseRequest.ofMembers, spelling_arguments hwireBase hbase, spelling_arguments hwireServer hserver,
    spelling_arguments hwireKey hkey]
  refine (closed_arguments updateDisguise).trans ?_
  simp only [Checked.seq_eq_ok_iff, Checked.map_eq_ok_iff, requiredAs_arguments hwireBase hbase,
    requiredAs_arguments hwireServer hserver, requiredAs_arguments hwireKey hkey, required_arguments hdisguise,
    Rule.text_eq_ok_iff, Rule.object_eq_ok_iff]
  constructor
  · intro h
    obtain ⟨_, m, ⟨_, k, ⟨_, s, ⟨b, hb, rfl⟩, hs, rfl⟩, hk, rfl⟩, hm, rfl⟩ := h
    exact ⟨hb, hs, hk, hm⟩
  · intro h
    obtain ⟨hb, hs, hk, hm⟩ := h
    exact ⟨_, r.disguise, ⟨_, r.adminApiKey, ⟨_, r.serverId, ⟨r.baseUrl, hb, rfl⟩, hs, rfl⟩, hk, rfl⟩, hm, rfl⟩

/-- Without arguments there is nothing to check. -/
theorem shaped_of_no_parameters (h : op.parameters = []) : op.Shaped args := by
  constructor
  all_goals
    intro p hp
    rw [h] at hp
    cases hp

/-- Arguments of the right shape are packed into an object with these. -/
theorem pack_of_shaped (h : op.Shaped args) : op.pack args = .ok (.object (op.wire args)) := by
  unfold pack
  simp only [missing_eq_nil_iff.mpr h.given]
  cases op with
  | importToken =>
    obtain ⟨b, hb⟩ := h.text "base_url" (by decide) (by decide)
    obtain ⟨t, ht⟩ := h.text "token" (by decide) (by decide)
    refine checked_eq_ok_iff.mpr ⟨⟨b, t⟩, importRequest_eq_ok_iff.mpr ⟨hb, ht⟩, ?_⟩
    simp only [wire, wireNames, parameters, List.zip_cons_cons, List.zip_nil_left, List.map_cons, List.map_nil, hb, ht]
    rfl
  | setMode =>
    obtain ⟨t, ht⟩ := h.text "mode" (by decide) (by decide)
    refine checked_eq_ok_iff.mpr ⟨⟨t⟩, modeRequest_eq_ok_iff.mpr ht, ?_⟩
    simp only [wire, wireNames, parameters, List.zip_cons_cons, List.zip_nil_left, List.map_cons, List.map_nil, ht]
    rfl
  | updateDisguise =>
    obtain ⟨b, hb⟩ := h.text "base_url" (by decide) (by decide)
    obtain ⟨s, hs⟩ := h.text "server_id" (by decide) (by decide)
    obtain ⟨k, hk⟩ := h.text "admin_api_key" (by decide) (by decide)
    obtain ⟨m, hm⟩ := h.object "disguise" (by decide) rfl
    refine checked_eq_ok_iff.mpr ⟨⟨b, s, k, m⟩, disguiseRequest_eq_ok_iff.mpr ⟨hb, hs, hk, hm⟩, ?_⟩
    simp only [wire, wireNames, parameters, List.zip_cons_cons, List.zip_nil_left, List.map_cons, List.map_nil, hb, hs, hk, hm]
    rfl
  | connect => rfl
  | disconnect => rfl
  | status => rfl

/-- What could be packed has the right shape. -/
theorem shaped_of_pack {payload : Json} (h : op.pack args = .ok payload) : op.Shaped args := by
  unfold pack at h
  cases hmissing : missing (op.arguments args) with
  | cons name more =>
    simp only [hmissing] at h
    cases h
  | nil =>
    have hgiven := missing_eq_nil_iff.mp hmissing
    simp only [hmissing] at h
    cases op with
    | importToken =>
      obtain ⟨r, hr, -⟩ := checked_eq_ok_iff.mp h
      obtain ⟨hb, ht⟩ := importRequest_eq_ok_iff.mp hr
      constructor
      · exact hgiven
      · intro p hp _
        simp only [parameters, List.mem_cons, List.not_mem_nil, or_false] at hp
        rcases hp with rfl | rfl
        · exact ⟨_, hb⟩
        · exact ⟨_, ht⟩
      · intro p hp he
        rw [he] at hp
        exact absurd hp (by decide)
    | setMode =>
      obtain ⟨r, hr, -⟩ := checked_eq_ok_iff.mp h
      have hm := modeRequest_eq_ok_iff.mp hr
      constructor
      · exact hgiven
      · intro p hp _
        simp only [parameters, List.mem_singleton] at hp
        exact ⟨_, hp ▸ hm⟩
      · intro p hp he
        rw [he] at hp
        exact absurd hp (by decide)
    | updateDisguise =>
      obtain ⟨r, hr, -⟩ := checked_eq_ok_iff.mp h
      obtain ⟨hb, hs, hk, hd⟩ := disguiseRequest_eq_ok_iff.mp hr
      constructor
      · exact hgiven
      · intro p hp hne
        simp only [parameters, List.mem_cons, List.not_mem_nil, or_false] at hp
        rcases hp with rfl | rfl | rfl | rfl
        · exact ⟨_, hb⟩
        · exact ⟨_, hs⟩
        · exact ⟨_, hk⟩
        · exact absurd rfl hne
      · intro p _ he
        exact ⟨_, he ▸ hd⟩
    | connect => exact shaped_of_no_parameters rfl
    | disconnect => exact shaped_of_no_parameters rfl
    | status => exact shaped_of_no_parameters rfl

/-- There is a payload exactly for arguments of the right shape: an object with these. -/
theorem pack_eq_ok_iff {payload : Json} :
    op.pack args = .ok payload ↔ op.Shaped args ∧ payload = .object (op.wire args) := by
  constructor
  · intro h
    have hshaped := shaped_of_pack h
    rw [pack_of_shaped hshaped] at h
    exact ⟨hshaped, (Except.ok.inj h).symm⟩
  · intro h
    rw [h.2]
    exact pack_of_shaped h.1

theorem keys_wire : (op.wire args).map (·.1) = op.wireNames.map Text.ofString := by
  cases op <;> rfl

theorem values_wire : (op.wire args).map (·.2) = op.parameters.map (argument args) := by
  cases op <;> rfl

/-- What holds of all arguments holds of all values on the wire. -/
theorem forall_wire_iff {P : Json → Prop} :
    (∀ kv ∈ op.wire args, P kv.2) ↔ ∀ p ∈ op.parameters, P (argument args p) := by
  rw [← List.forall_mem_map (f := argument args), ← values_wire, List.forall_mem_map]

/-- The payload of suitable arguments has a text, and this is read as the payload. -/
theorem exists_encode_wire (hs : op.Suitable args) (hp : ∀ p ∈ op.parameters, Json.Proper 200 (argument args p)) :
    ∃ t, Payload.encode (.ofJson (.object (op.wire args))) = .ok t ∧ Json.read t = .ok (.object (op.wire args)) := by
  have hkeys : (op.wire args).keys.Nodup := by
    rw [Members.keys, keys_wire]
    cases op <;> decide
  have hpaired : ∀ kv ∈ op.wire args, kv.1.Paired := by
    intro kv hkv
    have hname : kv.1 ∈ (op.wire args).map (·.1) := List.mem_map_of_mem hkv
    rw [keys_wire] at hname
    obtain ⟨name, -, he⟩ := List.mem_map.mp hname
    rw [← he]
    exact Text.paired_ofString name
  have hreadable : Json.Readable (200 + 1) (.object (op.wire args)) :=
    .object hkeys hpaired (forall_wire_iff.mpr fun p hmem => (hp p hmem).readable (hs.writable p hmem))
  have hfinite : Json.AllFinite (.object (op.wire args)) :=
    .object (forall_wire_iff.mpr fun p hmem => (hs.writable p hmem).allFinite)
  obtain ⟨t, ht, hread⟩ := Json.read_of_writeAt (s := Payload.style) 0 (hreadable.mono (by decide)) fun _ => hfinite
  exact ⟨t, by rw [Payload.encode, ht], hread⟩

/-- Arguments whose payload has a text can be said by JSON. -/
theorem writable_of_encode {t : List Char} (h : Payload.encode (.ofJson (.object (op.wire args))) = .ok t) :
    ∀ p ∈ op.parameters, Json.Writable (argument args p) := by
  unfold Payload.encode at h
  split at h
  · rename_i hwrite
    have hobject : Json.Writable (.object (op.wire args)) := Json.writable_of_writeAt rfl _ hwrite
    cases hobject with
    | object hall => exact forall_wire_iff.mp hall
  · cases h

/-! ## Calls -/

section

variable {c : Config} {debug : Bool} {runner : Runner} {payload : Json}

theorem spawns_run (h : op.pack args = .ok payload) :
    (op.run c debug runner args).spawns = (c.call debug runner ⟨op.action, .ofJson payload⟩).spawns := by
  unfold run
  rw [h]
  dsimp only
  split
  · rfl
  · rfl

theorem log_run (h : op.pack args = .ok payload) :
    (op.run c debug runner args).log = (c.call debug runner ⟨op.action, .ofJson payload⟩).log := by
  unfold run
  rw [h]
  dsimp only
  split
  · rfl
  · rfl

theorem result_run (h : op.pack args = .ok payload) :
    (op.run c debug runner args).result =
      ((c.call debug runner ⟨op.action, .ofJson payload⟩).result.map op.handOn).mapError (Failure.map .call) := by
  unfold run
  rw [h]
  dsimp only
  split
  · rename_i hr
    rw [hr]
    rfl
  · rename_i hr
    rw [hr]
    rfl

end

/-- With suitable arguments, one process is started with their text, and the call ends as its outcome says. -/
theorem run_of_suitable (hs : op.Suitable args) (hp : ∀ p ∈ op.parameters, Json.Proper 200 (argument args p))
    (c : Config) (debug : Bool) (runner : Runner) : ∃ text, Json.read text = .ok (.object (op.wire args)) ∧
      (op.run c debug runner args).spawns = [⟨[c.program, c.script, op.action, Text.ofChars text], c.deadline⟩] ∧
      (c.call debug runner ⟨op.action, .ofJson (.object (op.wire args))⟩).result =
        (c.settle debug op.action
          (runner ⟨[c.program, c.script, op.action, Text.ofChars text], c.deadline⟩)).1 := by
  obtain ⟨t, ht, hread⟩ := exists_encode_wire hs hp
  obtain ⟨hspawns, hresult⟩ := Config.call_of_encode c debug runner op.action ht
  refine ⟨t, hread, ?_, hresult⟩
  rw [spawns_run (pack_of_shaped hs.toShaped), hspawns]

/-- What a caller sees of the one process that is started. If the process succeeds, its value is handed on or,
where the table has none, dropped. Otherwise the call fails, and the operation fails in the same way. -/
structure Sent (listing : Listing) (members : Members Empty) (c : Config) (debug : Bool) (runner : Runner)
    (spawn : Spawn) (sent : Traced (Except (Failure OperationError) Json)) : Prop where
  spawns : sent.spawns = [spawn]
  succeeded : ∀ v, (runner spawn).Succeeds v → sent.result = .ok (if listing.returnsValue then v else .null)
  failed : (∀ v, ¬ (runner spawn).Succeeds v) →
    ∃ f, (c.call debug runner ⟨listing.action, .ofJson (.object members)⟩).result = .error f ∧
      sent.result = .error (f.map .call)

/-- What an operation sends is what the table tells of it. -/
theorem exists_sent {listing : Listing} (h : listing.Describes op) (hs : op.Suitable args)
    (hp : ∀ p ∈ op.parameters, Json.Proper 200 (argument args p)) (c : Config) (debug : Bool) (runner : Runner) :
    ∃ text, Json.read text = .ok (.object (op.wire args)) ∧
      Sent listing (op.wire args) c debug runner ⟨[c.program, c.script, listing.action, Text.ofChars text], c.deadline⟩
        (op.run c debug runner args) := by
  obtain ⟨text, hread, hspawns, hcall⟩ := run_of_suitable hs hp c debug runner
  have hresult : (op.run c debug runner args).result = _ := result_run (pack_of_shaped hs.toShaped)
  refine ⟨text, hread, ?_⟩
  rw [h.action]
  constructor
  · exact hspawns
  · intro v hv
    rw [hresult, hcall, Config.settle_eq_ok_iff.mpr hv, ← h.value v]
    rfl
  · intro hnone
    rw [h.action, hresult, hcall]
    cases hsettle : (c.settle debug op.action
        (runner ⟨[c.program, c.script, op.action, Text.ofChars text], c.deadline⟩)).1 with
    | ok v => exact absurd (Config.settle_eq_ok_iff.mp hsettle) (hnone v)
    | error f => exact ⟨f, rfl, rfl⟩

/-- Nothing is started for arguments that are not suitable. The error is about the arguments if they do not have
their shape, and else about the payload, which has no text. -/
theorem run_of_not_suitable (h : ¬ op.Suitable args) (c : Config) (debug : Bool) (runner : Runner) :
    (op.run c debug runner args).spawns = [] ∧ ∃ e, (op.run c debug runner args).result = .error (.reported e) ∧
      (¬ op.Shaped args → e.kind = .validation) ∧ (op.Shaped args → e.kind = .serialization) := by
  by_cases hshaped : op.Shaped args
  · have hpack := pack_of_shaped hshaped
    cases hencode : Payload.encode (.ofJson (.object (op.wire args))) with
    | ok t => exact absurd ⟨hshaped, writable_of_encode hencode⟩ h
    | error e =>
      have hcall := Config.call_of_unwritable c debug runner op.action hencode
      have hkind : e.kind = .serialization := by
        unfold Payload.encode at hencode
        split at hencode
        · cases hencode
        · cases hencode
          rfl
      refine ⟨?_, .call e, ?_, ?_, ?_⟩
      · rw [spawns_run hpack, hcall]
      · rw [result_run hpack, hcall]
        rfl
      · intro hnot
        exact absurd hshaped hnot
      · intro _
        exact hkind
  · cases hpack : op.pack args with
    | ok payload => exact absurd (pack_eq_ok_iff.mp hpack).1 hshaped
    | error e =>
      have hrun : op.run c debug runner args = ⟨.error (.reported (.argument e)), [], []⟩ := by
        unfold run
        rw [hpack]
      rw [hrun]
      refine ⟨rfl, .argument e, rfl, ?_, ?_⟩
      · intro _
        rfl
      · intro hyes
        exact absurd hyes hshaped

/-- For each name in the table, the operation of that name makes the one call that the table tells of if its arguments
are suitable. Otherwise, and for a name that is not in the table, nothing is started. Each listing describes one
operation, and the table has the names, actions and values that are documented. -/
theorem runNamed_of_proper {listing : Listing} (hlisting : listing ∈ table) (hname : listing.name = op.name)
    (hp : ∀ p ∈ op.parameters, Json.Proper 200 (argument args p)) (c : Config) (debug : Bool) (runner : Runner) :
    (op.Suitable args → ∃ text, Json.read text = .ok (.object (op.wire args)) ∧
      Sent listing (op.wire args) c debug runner ⟨[c.program, c.script, listing.action, Text.ofChars text], c.deadline⟩
        (runNamed listing.name c debug runner args)) ∧
    (¬ op.Suitable args → (runNamed listing.name c debug runner args).spawns = [] ∧
      ∃ e, (runNamed listing.name c debug runner args).result = .error (.reported e) ∧
        (¬ op.Shaped args → e.kind = .validation) ∧ (op.Shaped args → e.kind = .serialization)) ∧
    (∀ name, (∀ other ∈ table, other.name ≠ name) →
      runNamed name c debug runner args = ⟨.error (.reported (.argument (.unknownOperation name))), [], []⟩) ∧
    (∀ other ∈ table, ∃! described : Operation, other.Describes described) ∧
    table.map (fun other => (other.name, other.action.text, other.returnsValue)) =
      [("import_token", "importToken", false), ("connect", "connect", true), ("set_mode", "setMode", true),
       ("disconnect", "disconnect", false), ("update_disguise", "updateDisguise", true),
       ("status", "status", true)] := by
  have hrun : runNamed listing.name c debug runner args = op.run c debug runner args := by
    unfold runNamed
    rw [hname, ofName?_name]
  rw [hrun]
  refine ⟨?_, ?_, ?_, ?_, rfl⟩
  · intro hs
    exact exists_sent (describes_of_name hlisting hname) hs hp c debug runner
  · intro hs
    exact run_of_not_suitable hs c debug runner
  · intro name hunknown
    unfold runNamed
    rw [ofName?_eq_none hunknown]
  · intro other hother
    obtain ⟨described, hdescribed⟩ := exists_described hother
    refine ⟨described, hdescribed, ?_⟩
    intro op' hop
    exact name_inj (hop.name.symm.trans hdescribed.name)

/-- A disguise is sent, whatever the order of the arguments, and the value that comes back is handed on. -/
theorem runNamed_of_proper_disguise :
    ∃ text sent, Json.read text = .ok (.object [("baseUrl", .str "https://panel"), ("serverId", .str "1"),
        ("adminApiKey", .str "key"), ("disguise", .object [("flags", .array [.bool true])])]) ∧
      runNamed "update_disguise" ⟨"node", "bridge.js", none⟩ false
        (fun _ => .exited 0 (some (Utf8.encode "\x7b\"ok\": true, \"data\": [2]\x7d".toList)) none)
        [("disguise", .object [("flags", .array [.bool true])]), ("server_id", .str "1"),
          ("base_url", .str "https://panel"), ("admin_api_key", .str "key")] = sent ∧
      sent.spawns = [⟨["node", "bridge.js", "updateDisguise", Text.ofChars text], none⟩] ∧
      sent.result = .ok (.array [.int 2]) := by
  let args : Members Empty := [("disguise", .object [("flags", .array [.bool true])]), ("server_id", .str "1"),
    ("base_url", .str "https://panel"), ("admin_api_key", .str "key")]
  have hbase : argument args "base_url" = .str "https://panel" := by rfl
  have hserver : argument args "server_id" = .str "1" := by rfl
  have hkey : argument args "admin_api_key" = .str "key" := by rfl
  have hdisguise : argument args "disguise" = .object [("flags", .array [.bool true])] := by rfl
  have hproper : ∀ p ∈ updateDisguise.parameters, Json.Proper 200 (argument args p) := by
    simp only [parameters, List.forall_mem_cons, hbase, hserver, hkey, hdisguise]
    refine ⟨.str (Text.paired_ofString _), .str (Text.paired_ofString _), .str (Text.paired_ofString _), ?_,
      List.forall_mem_nil _⟩
    refine .object (by decide) ?_ ?_
    · exact List.forall_mem_singleton.mpr (Text.paired_ofString _)
    · exact List.forall_mem_singleton.mpr (.array (List.forall_mem_singleton.mpr (.bool true)))
  have hsuitable : updateDisguise.Suitable args := by
    refine ⟨⟨?_, ?_, ?_⟩, ?_⟩
    · simp [parameters, hbase, hserver, hkey, hdisguise]
    · simp [parameters, hbase, hserver, hkey]
    · simp [parameters, hdisguise]
    · simp only [parameters, List.forall_mem_cons, hbase, hserver, hkey, hdisguise]
      refine ⟨.str _, .str _, .str _, ?_, List.forall_mem_nil _⟩
      exact .object (List.forall_mem_singleton.mpr (.array (List.forall_mem_singleton.mpr (.bool true))))
  have hlisting : (⟨"update_disguise", .updateDisguise, true⟩ : Listing) ∈ table := by decide
  obtain ⟨hsent, -⟩ := runNamed_of_proper hlisting rfl hproper ⟨"node", "bridge.js", none⟩ false _
  obtain ⟨text, hread, hspawns, hsucceeded, -⟩ := hsent hsuitable
  refine ⟨text, _, hread, rfl, hspawns, hsucceeded (.array [.int 2]) ?_⟩
  exact ⟨0, _, none, _, ⟨true, .array [.int 2], none⟩, rfl, Utf8.decode?_eq_ok_iff.mpr rfl, by rfl, rfl, rfl⟩

end Operation

end AgentBridge
