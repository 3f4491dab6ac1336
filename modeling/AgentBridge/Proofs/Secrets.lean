import AgentBridge.Proofs.Options
import AgentBridge.Proofs.RoundTrip
import AgentBridge.Proofs.Tasks

/-
  AgentBridge.Proofs.Secrets — secrets go to the backend and to nowhere else.

  A share token and an admin key are options of a command each. Two command lines that differ
  in the values of such an option only ask for tasks that differ in the secret only
  (`Secret.alike_invocation`), and these come to calls with payloads that differ in one member.
  Nothing but the text of the payload depends on it, so the two runs print the same, end in the
  same way and start the same process, but for this member (`Secret.same_but_secret`).
-/

namespace AgentBridge

namespace CommandLine

/-! ## Tasks with a secret -/

/-- A secret that a command is given. -/
inductive Secret where
  | token
  | adminApiKey

namespace Secret

def command : Secret → Command
  | .token => .importToken
  | .adminApiKey => .updateDisguise

def option : Secret → Opt
  | .token => .token
  | .adminApiKey => .adminApiKey

def operation : Secret → Operation
  | .token => .importToken
  | .adminApiKey => .updateDisguise

/-- The member of the payload that holds a secret. -/
def member : Secret → String
  | .token => "token"
  | .adminApiKey => "adminApiKey"

/-- The value of a secret, from the arguments of its command or else from the environment. -/
def valueIn (x : Secret) (env : Environment) (arguments : List (List Char)) : Option (List Char) :=
  match scan x.command.options true arguments with
  | .ok s => valueOf env s x.option
  | .error _ => none

/-- The tasks that are given a secret, as functions of it. -/
inductive Asks : Secret → (List Char → Task) → Prop
  | token (baseUrl : List Char) : Asks .token (.importToken baseUrl)
  | adminApiKey (baseUrl serverId : List Char) (sources : DisguiseSources) :
    Asks .adminApiKey fun key => .updateDisguise baseUrl serverId key sources

/-- The same page is asked for, or one task with two values of a secret. -/
inductive AskAlike (x : Secret) (v v' : Option (List Char)) : Invocation → Invocation → Prop
  | help (command : Option Command) : AskAlike x v v' (.help command) (.help command)
  | version : AskAlike x v v' .version .version
  | task {ask : List Char → Task} {value value' : List Char} (asJson : Bool) : x.Asks ask → v = some value →
    v' = some value' → AskAlike x v v' (.task (ask value) asJson) (.task (ask value') asJson)

theorem option_mem (x : Secret) : x.option ∈ x.command.options := by
  cases x <;> decide

theorem takesValue_option (x : Secret) : x.option.takesValue = true := by
  cases x <;> rfl

variable {x : Secret} (env : Environment) (files : Files)

/-- The task is the same but for the secret. -/
theorem alike_taskOf {s s' : Scanned} (h : s.SameBut x.option s') : Alike
    (fun t t' => ∃ ask v v', x.Asks ask ∧ valueOf env s x.option = some v ∧ valueOf env s' x.option = some v' ∧
      t = ask v ∧ t' = ask v')
    (taskOf env files s x.command) (taskOf env files s' x.command) := by
  cases x with
  | token =>
    simp only [command, taskOf, h.required_eq env (p := .baseUrl) (by decide), h.rest]
    refine (Alike.self _).bind fun baseUrl _ hbase => ?_
    subst hbase
    refine (alike_required env h).bind fun v v' hv => ?_
    refine (Alike.self _).bind fun _ _ _ => ?_
    exact Or.inr ⟨_, _, rfl, rfl, _, v, v', .token baseUrl, hv.1, hv.2, rfl, rfl⟩
  | adminApiKey =>
    have hfile : fileOf files s .disguiseFile = fileOf files s' .disguiseFile := by
      unfold fileOf
      rw [h.value .disguiseFile (by decide)]
    simp only [command, taskOf, hfile, h.required_eq env (p := .baseUrl) (by decide),
      h.required_eq env (p := .serverId) (by decide), h.value .domain (by decide), h.value .disguise (by decide),
      h.rest]
    refine (Alike.self _).bind fun file _ hfile => ?_
    subst hfile
    refine (Alike.self _).bind fun baseUrl _ hbase => ?_
    subst hbase
    refine (Alike.self _).bind fun serverId _ hserver => ?_
    subst hserver
    refine (alike_required env h).bind fun v v' hv => ?_
    refine (Alike.self _).bind fun _ _ _ => ?_
    exact Or.inr ⟨_, _, rfl, rfl, _, v, v', .adminApiKey baseUrl serverId _, hv.1, hv.2, rfl, rfl⟩

theorem alike_behind {arguments arguments' : List (List Char)}
    (h : Varies x.command.options x.option arguments arguments') :
    Alike (x.AskAlike (x.valueIn env arguments) (x.valueIn env arguments'))
      (x.command.invocation env files arguments) (x.command.invocation env files arguments') := by
  unfold Command.invocation
  rcases alike_scan x.option_mem x.takesValue_option h with ⟨e, he, he'⟩ | ⟨s, s', hs, hs', hsame⟩
  · rw [he, he']
    exact Or.inl ⟨e, rfl, rfl⟩
  · have hv : x.valueIn env arguments = valueOf env s x.option := by rw [valueIn, hs]
    have hv' : x.valueIn env arguments' = valueOf env s' x.option := by rw [valueIn, hs']
    rw [hs, hs', hv, hv']
    change Alike _ (if s.has .help then _ else _) (if s'.has .help then _ else _)
    rw [hsame.has .help, hsame.has .json]
    split
    · exact Or.inr ⟨_, _, rfl, rfl, .help _⟩
    · refine (alike_taskOf env files hsame).bind fun t t' ht => ?_
      obtain ⟨ask, v, v', hask, hv, hv', rfl, rfl⟩ := ht
      exact Or.inr ⟨_, _, rfl, rfl, .task _ hask hv hv'⟩

/-- Two command lines ask for the same, but for the values of a secret. -/
theorem alike_invocation {arguments arguments' rest rest' : List (List Char)} {given : List Given} {typed : List Char}
    (h : scan programOptions false arguments = .ok ⟨given, typed :: rest⟩)
    (h' : scan programOptions false arguments' = .ok ⟨given, typed :: rest'⟩)
    (htyped : Command.ofTyped? typed = some x.command) (hvaries : Varies x.command.options x.option rest rest') :
    Alike (x.AskAlike (x.valueIn env rest) (x.valueIn env rest'))
      (CommandLine.invocation env files arguments) (CommandLine.invocation env files arguments') := by
  cases given with
  | nil =>
    rw [invocation_of_typed h htyped, invocation_of_typed h' htyped]
    exact alike_behind env files hvaries
  | cons g more =>
    unfold CommandLine.invocation
    rw [h, h']
    obtain ⟨o, value⟩ := g
    cases o with
    | version => exact Or.inr ⟨_, _, rfl, rfl, .version⟩
    | _ => exact Or.inr ⟨_, _, rfl, rfl, .help none⟩

end Secret

end CommandLine

/-! ## Payloads with a secret -/

namespace Json

section

variable {F : Type} {s : Style F}

/-- Two values are written alike, at every level. -/
def WrittenAlike (s : Style F) (v v' : Value F) : Prop :=
  ∀ level, Alike (fun _ _ => True) (writeAt s level v) (writeAt s level v')

/-- Two objects have the same keys in the same order, with values that are written alike. -/
def MembersAlike (s : Style F) : (m m' : List (Text × Value F)) → Prop :=
  List.Forall₂ fun kv kv' => kv.1 = kv'.1 ∧ WrittenAlike s kv.2 kv'.2

theorem membersAlike_refl (m : List (Text × Value F)) : MembersAlike s m m :=
  List.forall₂_same.mpr fun _ _ => ⟨rfl, fun _ => Alike.refl (fun _ => trivial) _⟩

/-- Another text in one of the members does not matter. -/
theorem membersAlike_set (key t t' : Text) (m : Members Empty) :
    MembersAlike s (Value.ofMembers (m.set key (.str t))) (Value.ofMembers (m.set key (.str t'))) := by
  have htext : WrittenAlike s (.str t) (.str t') := fun _ => Or.inr ⟨_, _, rfl, rfl, trivial⟩
  induction m with
  | nil => exact .cons ⟨rfl, htext⟩ .nil
  | cons kv rest ih =>
    obtain ⟨k, v⟩ := kv
    rw [Members.set, Members.set]
    by_cases hk : k = key
    · rw [if_pos hk, if_pos hk]
      exact .cons ⟨rfl, htext⟩ (membersAlike_refl _)
    · rw [if_neg hk, if_neg hk]
      exact .cons ⟨rfl, fun _ => Alike.refl (fun _ => trivial) _⟩ ih

theorem MembersAlike.writeMembers {m m' : List (Text × Value F)} (h : MembersAlike s m m') (level : Nat) :
    Alike (fun _ _ => True) (writeMembers s level m) (writeMembers s level m') := by
  induction h with
  | nil => exact Or.inr ⟨_, _, rfl, rfl, trivial⟩
  | cons hfirst _ ih =>
    refine (hfirst.2 level).bind fun _ _ _ => ?_
    exact ih.bind fun _ _ _ => Or.inr ⟨_, _, rfl, rfl, trivial⟩

theorem MembersAlike.writtenAlike {m m' : List (Text × Value F)} (h : MembersAlike s m m') :
    WrittenAlike s (.object m) (.object m') := by
  intro level
  cases h with
  | nil => exact Or.inr ⟨_, _, rfl, rfl, trivial⟩
  | cons hfirst hrest =>
    refine (hfirst.2 (level + 1)).bind fun _ _ _ => ?_
    exact (MembersAlike.writeMembers hrest (level + 1)).bind fun _ _ _ => Or.inr ⟨_, _, rfl, rfl, trivial⟩

end

theorem Readable.set {room : Nat} {m : Members Empty} {key : Text} {v : Json} (h : Readable (room + 1) (.object m))
    (hk : key.Paired) (hv : Readable room v) : Readable (room + 1) (.object (m.set key v)) := by
  cases h with
  | object hkeys hpaired hall =>
    refine .object (nodup_keys_set v hkeys) (fun kv hkv => ?_) (fun kv hkv => ?_)
    · rcases mem_set hkv with rfl | hmem
      · exact hk
      · exact hpaired kv hmem
    · rcases mem_set hkv with rfl | hmem
      · exact hv
      · exact hall kv hmem

end Json

/-- A text of a payload for an object: it is read as this object, unless that has too many brackets. -/
def Payload.Tells (text : List Char) (m : Members Empty) : Prop :=
  Payload.encode (.ofJson (.object m)) = .ok text ∧
    ((Value.ofJson (.object m) : Payload).depth ≤ Json.nestingLimit → Json.read text = .ok (.object m))

theorem Payload.tells_of_encode {room : Nat} {m : Members Empty} {text : List Char}
    (h : Json.Readable room (.object m)) (ht : Payload.encode (.ofJson (.object m)) = .ok text) : Payload.Tells text m := by
  refine ⟨ht, fun hdepth => ?_⟩
  unfold Payload.encode at ht
  split at ht
  · rename_i hwrite
    cases ht
    rw [Json.read_of_told hwrite hdepth, Json.told_ofJson h]
  · cases ht

theorem Payload.alike_encode (key t t' : Text) (m : Members Empty) :
    Alike (fun _ _ => True) (Payload.encode (.ofJson (.object (m.set key (.str t)))))
      (Payload.encode (.ofJson (.object (m.set key (.str t'))))) := by
  unfold Payload.encode
  rcases (Json.membersAlike_set key t t' m).writtenAlike 0 with ⟨e, he, he'⟩ | ⟨a, b, ha, hb, -⟩
  · rw [Value.ofJson, Value.ofJson, he, he']
    exact Or.inl ⟨_, rfl, rfl⟩
  · rw [Value.ofJson, Value.ofJson, ha, hb]
    exact Or.inr ⟨a, b, rfl, rfl, trivial⟩

/-! ## Calls with a secret -/

/-- Two pieces of work come to the same and log the same, and what they start is related. -/
structure Traced.SameBut {α : Type} (R : List Spawn → List Spawn → Prop) (t t' : Traced α) : Prop where
  result : t.result = t'.result
  log : t.log = t'.log
  spawns : R t.spawns t'.spawns

/-- Nothing is started, or one process is with the text of a payload, which may be another one. -/
def Config.StartAlike (c : Config) (action : Text) (payload payload' : Payload) (spawns spawns' : List Spawn) : Prop :=
  (spawns = [] ∧ spawns' = []) ∨ ∃ text text', payload.encode = .ok text ∧ payload'.encode = .ok text' ∧
    spawns = [⟨[c.program, c.script, action, Text.ofChars text], c.deadline⟩] ∧
    spawns' = [⟨[c.program, c.script, action, Text.ofChars text'], c.deadline⟩]

section

variable {c : Config} {debug : Bool} {runner : Runner} {o : Outcome} {payload payload' : Payload}

/-- With payloads that are written alike and processes that end in the same way, two calls differ in the text of the
payload only. -/
theorem Config.alike_call (ho : ∀ spawn, runner spawn = o) (action : Text)
    (h : Alike (fun _ _ => True) payload.encode payload'.encode) :
    (c.call debug runner ⟨action, payload⟩).SameBut (c.StartAlike action payload payload')
      (c.call debug runner ⟨action, payload'⟩) := by
  rcases h with ⟨e, he, he'⟩ | ⟨text, text', ht, ht', -⟩
  · rw [Config.call_of_unwritable c debug runner action he, Config.call_of_unwritable c debug runner action he']
    exact ⟨rfl, rfl, Or.inl ⟨rfl, rfl⟩⟩
  · rw [Config.call_of_argv c debug (argv_of_encode ht), Config.call_of_argv c debug (argv_of_encode ht'), ho, ho]
    exact ⟨rfl, rfl, Or.inr ⟨text, text', ht, ht', rfl, rfl⟩⟩

theorem Operation.alike_run {op : Operation} {args args' : Members Empty} {value value' : Json}
    (ho : ∀ spawn, runner spawn = o) (hpack : op.pack args = .ok value) (hpack' : op.pack args' = .ok value')
    (h : Alike (fun _ _ => True) (Payload.encode (.ofJson value)) (Payload.encode (.ofJson value'))) :
    (op.run c debug runner args).SameBut (c.StartAlike op.action (.ofJson value) (.ofJson value'))
      (op.run c debug runner args') := by
  have hcall : (c.call debug runner ⟨op.action, .ofJson value⟩).SameBut _
      (c.call debug runner ⟨op.action, .ofJson value'⟩) := Config.alike_call ho op.action h
  obtain ⟨hresult, hlog, hspawns⟩ := hcall
  constructor
  · rw [result_run hpack, result_run hpack', hresult]
  · rw [log_run hpack, log_run hpack', hlog]
  · rw [spawns_run hpack, spawns_run hpack']
    exact hspawns

end

namespace CommandLine

theorem DisguiseSources.readable_load {sources : DisguiseSources} {disguise : Members Empty}
    (h : sources.load = .ok disguise) : Json.Readable Json.nestingLimit (.object disguise) := by
  have htext : ∀ text, disguiseOfText text = .ok disguise → Json.Readable Json.nestingLimit (.object disguise) := by
    intro text htext
    unfold disguiseOfText at htext
    split at htext
    · rename_i hread
      cases htext
      exact Json.readable_of_read hread
    · cases htext
    · cases htext
    · cases htext
  unfold load at h
  split at h
  · unfold disguiseOfDomain at h
    split at h
    · cases h
      have hkeys : [Text.ofString "serverName", Text.ofString "dest", Text.ofString "fingerprint"].Nodup := by decide
      refine .object hkeys (by simp [Disguise.ofDomain, Text.paired_ofString]) ?_
      refine List.forall_mem_cons.mpr ⟨.str (Text.paired_ofChars _), List.forall_mem_cons.mpr ⟨.str ?_, ?_⟩⟩
      · exact Text.paired_ofChars_append _ (Text.paired_ofString _)
      · exact List.forall_mem_singleton.mpr (.str (Text.paired_ofString _))
    · cases h
  · exact htext _ h
  · unfold disguiseOfFile at h
    split at h
    · exact htext _ h
    · cases h
  · cases h

namespace Secret

variable {x : Secret} {ask : List Char → Task}

/-- A task with a secret comes to nothing for a reason that does not depend on it, or to its operation with the
secret, trimmed, in one member of the payload. -/
theorem Asks.request (h : x.Asks ask) : (∃ reason, ∀ v, (ask v).request = .error reason) ∨
    ∃ (args : List Char → Members Empty) (m : Members Empty), Json.Readable (Json.nestingLimit + 1) (.object m) ∧
      ∀ v, (ask v).request = .ok (x.operation, args v) ∧
        x.operation.pack (args v) = .ok (.object (m.set x.member (.str (Text.ofChars (Blank.trim v))))) := by
  cases h with
  | token baseUrl =>
    refine Or.inr ⟨importArguments (Blank.trim baseUrl) ∘ Blank.trim,
      [("baseUrl", trimmed baseUrl)], ?_, fun v => ⟨rfl, rfl⟩⟩
    exact .object (List.nodup_singleton _) (List.forall_mem_singleton.mpr (Text.paired_ofString _))
      (List.forall_mem_singleton.mpr (.str (Text.paired_ofChars _)))
  | adminApiKey baseUrl serverId sources =>
    simp only [Task.request]
    cases hload : sources.load with
    | error reason =>
      cases reason with
      | reported e => exact Or.inl ⟨_, fun _ => rfl⟩
      | fatal f => exact Or.inl ⟨_, fun _ => rfl⟩
    | ok disguise =>
      refine Or.inr ⟨fun key => disguiseArguments baseUrl serverId key disguise,
        [("baseUrl", trimmed baseUrl), ("serverId", trimmed serverId), ("adminApiKey", .null),
          ("disguise", .object disguise)], ?_, fun v => ⟨rfl, rfl⟩⟩
      have htrimmed : ∀ cs, Json.Readable Json.nestingLimit (trimmed cs) := fun cs => .str (Text.paired_ofChars _)
      have hkeys : [Text.ofString "baseUrl", Text.ofString "serverId", Text.ofString "adminApiKey",
          Text.ofString "disguise"].Nodup := by decide
      refine .object hkeys (by simp [Text.paired_ofString]) ?_
      simp only [List.forall_mem_cons]
      exact ⟨htrimmed _, htrimmed _, .null, DisguiseSources.readable_load hload, List.forall_mem_nil _⟩

/-- What is started for two values of a secret: nothing, or one process, which is told the secret, trimmed, in one
member of its payload and is the same otherwise. -/
inductive StartAlike (x : Secret) (c : Config) (v v' : Option (List Char)) : List Spawn → List Spawn → Prop
  | nothing : StartAlike x c v v' [] []
  | process {value value' text text' : List Char} {m : Members Empty} : v = some value → v' = some value' →
    Payload.Tells text (m.set x.member (.str (Text.ofChars (Blank.trim value)))) →
    Payload.Tells text' (m.set x.member (.str (Text.ofChars (Blank.trim value')))) →
    StartAlike x c v v' [⟨[c.program, c.script, x.operation.action, Text.ofChars text], c.deadline⟩]
      [⟨[c.program, c.script, x.operation.action, Text.ofChars text'], c.deadline⟩]

/-- Two runs print the same and end in the same way, and what they start is related. -/
structure RunAlike (R : List Spawn → List Spawn → Prop) (r r' : Run) : Prop where
  status : r.status = r'.status
  printed : r.printed = r'.printed
  spawns : R r.spawns r'.spawns

theorem RunAlike.after {R : List Spawn → List Spawn → Prop} {r r' : Run} (h : RunAlike R r r') (log : List LogEntry) :
    RunAlike R (r.after (logged log) []) (r'.after (logged log) []) :=
  ⟨h.status, congrArg (logged log ++ ·) h.printed, h.spawns⟩

variable {w : World} {o : Outcome}

/-- The two values of a secret make no difference to a task but in what is started. -/
theorem Asks.runAlike (h : x.Asks ask) (ho : ∀ spawn, w.runner spawn = o) (asJson : Bool) (value value' : List Char) :
    RunAlike (x.StartAlike (Config.ofEnvironment w.directory w.env) (some value) (some value'))
      ((ask value).run w asJson) ((ask value').run w asJson) := by
  have hwarnings : ∀ v, (ask v).warnings = [] := by
    intro v
    cases h <;> rfl
  have hpresent : (ask value).present w.env = (ask value').present w.env := by
    cases h <;> rfl
  rcases h.request with ⟨reason, hreason⟩ | ⟨args, m, hreadable, hrequest⟩
  · rw [Task.run_eq, Task.run_eq, hreason, hreason]
    cases reason with
    | fatal f => exact ⟨rfl, rfl, .nothing⟩
    | reported message =>
      refine ⟨rfl, rfl, ?_⟩
      dsimp only
      rw [Run.spawns_failed]
      exact .nothing
  · -- Both values come to the same operation, whose payloads are written alike; the rest follows the two calls.
    obtain ⟨hvalue, hpack⟩ := hrequest value
    obtain ⟨hvalue', hpack'⟩ := hrequest value'
    have hperform : (w.perform x.operation (args value)).SameBut _ (w.perform x.operation (args value')) :=
      Operation.alike_run ho hpack hpack' (Payload.alike_encode _ _ _ m)
    obtain ⟨hstatus, hprinted⟩ := operate_congr asJson ((ask value').present w.env) hperform.result hperform.log
    constructor
    · rw [Task.run_eq, Task.run_eq, hvalue, hvalue', hpresent]
      exact hstatus
    · rw [Task.run_eq, Task.run_eq, hvalue, hvalue', hwarnings, hwarnings, hpresent]
      exact hprinted
    · rw [Task.spawns_run hvalue, Task.spawns_run hvalue']
      have hset : ∀ v, Json.Readable (Json.nestingLimit + 1)
          (.object (m.set x.member (.str (Text.ofChars (Blank.trim v))))) :=
        fun v => hreadable.set (Text.paired_ofString _) (.str (Text.paired_ofChars _))
      rcases hperform.spawns with ⟨hnone, hnone'⟩ | ⟨text, text', ht, ht', hspawns, hspawns'⟩
      · rw [hnone, hnone']
        exact .nothing
      · rw [hspawns, hspawns']
        exact .process rfl rfl (Payload.tells_of_encode (hset value) ht) (Payload.tells_of_encode (hset value') ht')

/-- Two command lines name the command of a secret, with the same in front of its name, and differ in the values of the
secret only. The processes end in the same way. Then the same is printed on both streams, the exit status is the same,
and what is started is the same but for the one member of the payload that holds the secret, trimmed. -/
theorem same_but_secret (x : Secret) {w : World} {o : Outcome} (ho : ∀ spawn, w.runner spawn = o)
    {arguments arguments' : List (List Char)} {given : List Given} {typed : List Char} {rest rest' : List (List Char)}
    (h : scan programOptions false arguments = .ok ⟨given, typed :: rest⟩)
    (h' : scan programOptions false arguments' = .ok ⟨given, typed :: rest'⟩)
    (htyped : Command.ofTyped? typed = some x.command) (hvaries : Varies x.command.options x.option rest rest')
    (terminal : Bool) :
    ((run w arguments).finish terminal).output = ((run w arguments').finish terminal).output ∧
    ((run w arguments).finish terminal).errors = ((run w arguments').finish terminal).errors ∧
    ((run w arguments).finish terminal).status = ((run w arguments').finish terminal).status ∧
    x.StartAlike (Config.ofEnvironment w.directory w.env) (x.valueIn w.env rest) (x.valueIn w.env rest')
      ((run w arguments).finish terminal).spawns ((run w arguments').finish terminal).spawns := by
  have hruns : RunAlike (x.StartAlike (Config.ofEnvironment w.directory w.env) (x.valueIn w.env rest)
      (x.valueIn w.env rest')) (run w arguments) (run w arguments') := by
    have hremarks : remarks w.env.debug arguments = remarks w.env.debug arguments' := by
      rw [remarks, remarks, h, h']
      cases given <;> rfl
    rw [CommandLine.run_eq, CommandLine.run_eq, hremarks]
    refine RunAlike.after ?_ _
    rcases alike_invocation w.env w.files h h' htyped hvaries with ⟨e, he, he'⟩ | ⟨i, i', hi, hi', hasks⟩
    · rw [he, he']
      refine ⟨rfl, rfl, ?_⟩
      rw [spawns_usage]
      exact .nothing
    · rw [hi, hi']
      cases hasks with
      | version => exact ⟨rfl, rfl, .nothing⟩
      | help command => cases command <;> exact ⟨rfl, rfl, .nothing⟩
      | task asJson hask hv hv' =>
        rw [hv, hv']
        exact hask.runAlike ho asJson _ _
  rw [Run.finish, Run.finish, hruns.printed, hruns.status]
  exact ⟨rfl, rfl, rfl, hruns.spawns⟩

/-- Two tokens with blanks around them, next to an address that looks like the name of the option. -/
theorem same_but_secret_token :
    ∃ f f', f = (run ⟨⟨[("XRAY_DESKTOP_DEBUG", "1")]⟩, "/opt", fun _ => none, fun _ => .expired⟩
        ["import".toList, "--base-url".toList, "--token".toList, "--token= one".toList]).finish false ∧
      f' = (run ⟨⟨[("XRAY_DESKTOP_DEBUG", "1")]⟩, "/opt", fun _ => none, fun _ => .expired⟩
        ["import".toList, "--base-url".toList, "--token".toList, "--token=two\n".toList]).finish false ∧
      f.output = f'.output ∧ f.errors = f'.errors ∧ f.status = f'.status ∧ f.spawns ≠ [] ∧
      token.StartAlike (Config.ofEnvironment "/opt" ⟨[("XRAY_DESKTOP_DEBUG", "1")]⟩) (some " one".toList)
        (some "two\n".toList) f.spawns f'.spawns := by
  let w : World := ⟨⟨[("XRAY_DESKTOP_DEBUG", "1")]⟩, "/opt", fun _ => none, fun _ => .expired⟩
  let rest : List (List Char) := ["--base-url".toList, "--token".toList, "--token= one".toList]
  let rest' : List (List Char) := ["--base-url".toList, "--token".toList, "--token=two\n".toList]
  have hscan : scan programOptions false ("import".toList :: rest) = .ok ⟨[], "import".toList :: rest⟩ := rfl
  have hscan' : scan programOptions false ("import".toList :: rest') = .ok ⟨[], "import".toList :: rest'⟩ := rfl
  have hbase : Opt.baseUrl ∈ token.command.options := by decide
  have hvaries : Varies token.command.options token.option rest rest' :=
    .other hbase rfl (.attached (.same []))
  have hvalue : token.valueIn w.env rest = some " one".toList := by rfl
  have hvalue' : token.valueIn w.env rest' = some "two\n".toList := by rfl
  have hasked : CommandLine.invocation w.env w.files ("import".toList :: rest) =
      .ok (.task (.importToken "--token".toList " one".toList) false) := by rfl
  have hspawns : (run w ("import".toList :: rest)).spawns ≠ [] := by
    rw [CommandLine.run_eq, hasked]
    change (Task.run w false _).spawns ≠ []
    rw [Task.spawns_run rfl, World.perform, Operation.spawns_run rfl]
    exact List.cons_ne_nil _ _
  have hexpired : ∀ spawn, w.runner spawn = .expired := fun _ => rfl
  obtain ⟨houtput, herrors, hstatus, hstart⟩ := same_but_secret token hexpired hscan hscan' rfl hvaries false
  rw [hvalue, hvalue'] at hstart
  exact ⟨_, _, rfl, rfl, houtput, herrors, hstatus, hspawns, hstart⟩

end Secret

end CommandLine

end AgentBridge
