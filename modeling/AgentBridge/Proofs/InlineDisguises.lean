import AgentBridge.Proofs.Disguises
import AgentBridge.Proofs.LineEnds
import AgentBridge.Proofs.Options

/-
  AgentBridge.Proofs.InlineDisguises — a disguise on the command line and the same one in a file.

  Two command lines are the same, but one gives the text of a disguise where the other one names
  a file that holds it (`Exchanges`). They are taken apart alike (`alike_scan_exchanges`) and ask
  for the same task with another source (`alike_invocation_exchanges`). How the lines of the file
  end means nothing, so both sources give the same disguise or none (`load_cases`). Therefore
  both start the same process and end in the same way, and what is sent is the object that
  the text denotes (`run_inline_or_file`).
-/

namespace AgentBridge.CommandLine

/-! ## Command lines -/

/-- Arguments that give an option a value: behind its name, or behind an equals sign. -/
inductive Supplies (o : Opt) (v : List Char) : List (List Char) → Prop
  | separate : Supplies o v [o.name.toList, v]
  | attached : Supplies o v [o.name.toList ++ '=' :: v]

theorem Supplies.scan {known : List Opt} {o : Opt} {v : List Char} {arguments : List (List Char)}
    (h : Supplies o v arguments) (ho : o ∈ known) (ht : o.takesValue = true) (rest : List (List Char)) :
    scan known true (arguments ++ rest) = (scan known true rest).map (·.addOption o v) := by
  cases h with
  | separate => exact scan_separate ho ht v rest
  | attached => exact scan_attached ho ht v rest

/-- Two lists of arguments are the same, but one gives the text of a disguise where the other one names a file. No other
argument gives either. -/
inductive Exchanges (text path : List Char) : List (List Char) → List (List Char) → Prop
  | here {inline file rest : List (List Char)} : Supplies .disguise text inline → Supplies .disguiseFile path file →
    (∀ s, scan Command.updateDisguise.options true rest = .ok s →
      s.value? .disguise = none ∧ s.value? .disguiseFile = none) →
    Exchanges text path (inline ++ rest) (file ++ rest)
  /-- Another option takes the next argument for its value, whatever that looks like. -/
  | other {p : Opt} {v : List Char} {rest rest' : List (List Char)} : p ∈ Command.updateDisguise.options →
    p.takesValue = true → p ∉ [Opt.disguise, .disguiseFile] → Exchanges text path rest rest' →
    Exchanges text path (p.name.toList :: v :: rest) (p.name.toList :: v :: rest')
  | single {argument : List Char} {rest rest' : List (List Char)} : argument ≠ optionsEnd →
    (∀ p ∈ Command.updateDisguise.options, p.takesValue = true → argument ≠ p.name.toList) →
    (∀ p ∈ [Opt.disguise, .disguiseFile], p.name.toList ≠ (nameAndValue argument).1) →
    Exchanges text path rest rest' → Exchanges text path (argument :: rest) (argument :: rest')

/-- Options and arguments are the same, but for the text of a disguise in one and the name of its file in the other. -/
structure Scanned.Exchanged (text path : List Char) (s s' : Scanned) : Prop where
  rest : s.rest = s'.rest
  value : ∀ p, p ∉ [Opt.disguise, .disguiseFile] → s.value? p = s'.value? p
  inline : s.value? .disguise = some text ∧ s.value? .disguiseFile = none
  file : s'.value? .disguise = none ∧ s'.value? .disguiseFile = some path

namespace Scanned.Exchanged

variable {text path : List Char} {s s' : Scanned}

theorem addRest (h : Exchanged text path s s') (argument : List Char) :
    Exchanged text path (s.addRest argument) (s'.addRest argument) :=
  ⟨congrArg (argument :: ·) h.rest, h.value, h.inline, h.file⟩

theorem addOption (h : Exchanged text path s s') {p : Opt} (hp : p ∉ [Opt.disguise, .disguiseFile]) (v : List Char) :
    Exchanged text path (s.addOption p v) (s'.addOption p v) := by
  have hother : ∀ {s : Scanned} {q : Opt}, q ∈ [Opt.disguise, .disguiseFile] →
      (s.addOption p v).value? q = s.value? q := by
    intro s q hq
    rw [value?_addOption, if_neg]
    rintro rfl
    exact hp hq
  refine ⟨h.rest, fun q hq => ?_, ?_, ?_⟩
  · rw [value?_addOption, value?_addOption, h.value q hq]
  · rw [hother (by decide), hother (by decide)]
    exact h.inline
  · rw [hother (by decide), hother (by decide)]
    exact h.file

/-- The exchanged arguments themselves. -/
theorem here (h : s.value? .disguise = none ∧ s.value? .disguiseFile = none) :
    Exchanged text path (s.addOption .disguise text) (s.addOption .disguiseFile path) := by
  refine ⟨rfl, fun q hq => ?_, ?_, ?_⟩
  · have htext : Opt.disguise ≠ q := fun he => hq (he ▸ by decide)
    have hfile : Opt.disguiseFile ≠ q := fun he => hq (he ▸ by decide)
    rw [value?_addOption, value?_addOption, if_neg htext, if_neg hfile]
  · rw [value?_addOption, value?_addOption, if_pos rfl, if_neg (by decide), h.1, h.2]
    exact ⟨rfl, rfl⟩
  · rw [value?_addOption, value?_addOption, if_pos rfl, if_neg (by decide), h.1, h.2]
    exact ⟨rfl, rfl⟩

theorem has_eq (h : Exchanged text path s s') {p : Opt} (hp : p ∉ [Opt.disguise, .disguiseFile]) :
    s.has p = s'.has p := by
  rw [← isSome_value?, ← isSome_value?, h.value p hp]

theorem required_eq (h : Exchanged text path s s') (env : Environment) {p : Opt}
    (hp : p ∉ [Opt.disguise, .disguiseFile]) : required env s p = required env s' p := by
  unfold required valueOf
  rw [h.value p hp]

end Scanned.Exchanged

section

variable {text path : List Char} {inline file : List (List Char)}

theorem alike_scan_exchanges (h : Exchanges text path inline file) :
    Alike (Scanned.Exchanged text path) (scan Command.updateDisguise.options true inline)
      (scan Command.updateDisguise.options true file) := by
  induction h with
  | @here inline file rest hinline hfile hrest =>
    rw [hinline.scan (by decide) rfl, hfile.scan (by decide) rfl]
    cases hscan : scan Command.updateDisguise.options true rest with
    | error e => exact Or.inl ⟨e, rfl, rfl⟩
    | ok s => exact Or.inr ⟨_, _, rfl, rfl, .here (hrest s hscan)⟩
  | @other p v rest rest' hp ht hne _ ih =>
    rw [scan_separate hp ht, scan_separate hp ht]
    exact ih.map fun s s' hs => hs.addOption hne v
  | @single argument rest rest' hne hname hother _ ih =>
    rcases scan_single hne hname with ⟨e, he⟩ | hrest | ⟨p, v, hp, hoption⟩
    · rw [he, he]
      exact Or.inl ⟨e, rfl, rfl⟩
    · rw [hrest, hrest]
      exact ih.map fun s s' hs => hs.addRest argument
    · rw [hoption, hoption]
      exact ih.map fun s s' hs => hs.addOption (fun hmem => hother p hmem hp) v

/-- A path names a file with these contents. -/
def Holds (files : Files) (path : List Char) (bytes : List UInt8) : Prop :=
  '\x00' ∉ path ∧ files path = some (.file bytes)

/-- What two command lines ask for is the same, but for where the disguise comes from. -/
inductive SameButSource (text : List Char) (bytes : List UInt8) : Invocation → Invocation → Prop
  | help (c : Option Command) : SameButSource text bytes (.help c) (.help c)
  | task (baseUrl serverId adminApiKey : List Char) (domain : Option (List Char)) (asJson : Bool) :
    SameButSource text bytes (.task (.updateDisguise baseUrl serverId adminApiKey ⟨domain, some text, none⟩) asJson)
      (.task (.updateDisguise baseUrl serverId adminApiKey ⟨domain, none, some bytes⟩) asJson)

theorem alike_invocation_exchanges {files : Files} {bytes : List UInt8} (h : Exchanges text path inline file)
    (hfile : Holds files path bytes) (env : Environment) :
    Alike (SameButSource text bytes) (Command.updateDisguise.invocation env files inline)
      (Command.updateDisguise.invocation env files file) := by
  refine (alike_scan_exchanges h).bind fun s s' hs => ?_
  rw [hs.has_eq (p := .help) (by decide), hs.has_eq (p := .json) (by decide)]
  cases s'.has .help with
  | true => exact Or.inr ⟨_, _, rfl, rfl, .help _⟩
  | false =>
    have hnone : fileOf files s .disguiseFile = .ok none := by
      rw [fileOf, hs.inline.2]
    have hsome : fileOf files s' .disguiseFile = .ok (some bytes) := by
      rw [fileOf, hs.file.2]
      simp only [hfile.1, hfile.2, if_false]
    simp only [taskOf, hnone, hsome, hs.required_eq env (p := .baseUrl) (by decide),
      hs.required_eq env (p := .serverId) (by decide), hs.required_eq env (p := .adminApiKey) (by decide), hs.rest,
      hs.value .domain (by decide), hs.inline.1, hs.file.1]
    rcases required env s' .baseUrl with e | baseUrl
    · exact Or.inl ⟨e, rfl, rfl⟩
    rcases required env s' .serverId with e | serverId
    · exact Or.inl ⟨e, rfl, rfl⟩
    rcases required env s' .adminApiKey with e | adminApiKey
    · exact Or.inl ⟨e, rfl, rfl⟩
    rcases noMore s'.rest with e | _
    · exact Or.inl ⟨e, rfl, rfl⟩
    exact Or.inr ⟨_, _, rfl, rfl, .task baseUrl serverId adminApiKey _ _⟩

end

/-! ## Disguises -/

/-- Two sources give the same disguise, or both give none: for a reason that is reported, or for one that cuts the
run short and is the same. -/
inductive LoadAlike : Except NoDisguise (Members Empty) → Except NoDisguise (Members Empty) → Prop
  | ok (m : Members Empty) : LoadAlike (.ok m) (.ok m)
  | reported (e e' : DisguiseError) : LoadAlike (.error (.reported e)) (.error (.reported e'))
  | fatal (f : Fatal) : LoadAlike (.error (.fatal f)) (.error (.fatal f))

/-- The text of a disguise and the same text with one form for the ends of its lines. -/
theorem loadAlike_unify (text : List Char) : LoadAlike (disguiseOfText text) (disguiseOfText (Newline.unify text)) := by
  have halike := Json.readAlike_unify text
  cases hread : Json.read text with
  | ok v =>
    have hread' := (halike.ok v).mp hread
    unfold disguiseOfText
    rw [hread, hread']
    cases v with
    | object m => exact .ok m
    | _ => exact .reported _ _
  | error e =>
    cases e with
    | limit l =>
      have hread' := (halike.limit l).mp hread
      unfold disguiseOfText
      rw [hread, hread']
      exact .fatal _
    | malformed f place =>
      cases hread' : Json.read (Newline.unify text) with
      | ok v =>
        rw [(halike.ok v).mpr hread'] at hread
        cases hread
      | error e' =>
        cases e' with
        | limit l =>
          rw [(halike.limit l).mpr hread'] at hread
          cases hread
        | malformed f' place' =>
          unfold disguiseOfText
          rw [hread, hread']
          exact .reported _ _

/-- A disguise on the command line and the same one in a file. -/
theorem loadAlike_file (domain : Option (List Char)) (text : List Char) :
    LoadAlike (DisguiseSources.load ⟨domain, some text, none⟩)
      (DisguiseSources.load ⟨domain, none, some (Utf8.encode text)⟩) := by
  cases domain with
  | some typed => exact .reported _ _
  | none =>
    simp only [DisguiseSources.load, disguiseOfFile, Utf8.decode?_eq_ok_iff.mpr rfl]
    exact loadAlike_unify text

/-! ## Runs -/

theorem Task.endAlike_updateDisguise (w : World) (terminal asJson : Bool) (baseUrl serverId adminApiKey : List Char)
    {sources sources' : DisguiseSources} (h : LoadAlike sources.load sources'.load) :
    EndAlike terminal (Task.run w asJson (.updateDisguise baseUrl serverId adminApiKey sources))
      (Task.run w asJson (.updateDisguise baseUrl serverId adminApiKey sources')) := by
  simp only [Task.run, runDisguise]
  generalize sources.load = loaded at h
  generalize sources'.load = loaded' at h
  cases h with
  | ok m => exact .refl terminal _
  | fatal f => exact .refl terminal _
  | reported e e' => exact .failed e.ofCharacters_message e'.ofCharacters_message terminal asJson asJson

/-- An object is sent as it is. -/
theorem Task.spawns_updateDisguise (w : World) (baseUrl serverId adminApiKey : List Char) {sources : DisguiseSources}
    {members : Members Empty} (hload : sources.load = .ok members)
    (hread : Json.Readable Json.nestingLimit (.object members)) (hfinite : Json.AllFinite (.object members))
    (hdepth : (Value.object members).depth ≤ 200) (asJson : Bool) :
    ∃ payload, (Task.run w asJson (.updateDisguise baseUrl serverId adminApiKey sources)).spawns =
        [⟨[(Config.ofEnvironment w.directory w.env).program, (Config.ofEnvironment w.directory w.env).script,
          "updateDisguise", Text.ofChars payload], (Config.ofEnvironment w.directory w.env).deadline⟩] ∧
      Json.read payload = .ok (.object [("baseUrl", trimmed baseUrl), ("serverId", trimmed serverId),
        ("adminApiKey", trimmed adminApiKey), ("disguise", .object members)]) := by
  have hrequest : Task.request (.updateDisguise baseUrl serverId adminApiKey sources) =
      .ok (.updateDisguise, disguiseArguments baseUrl serverId adminApiKey members) := by
    rw [Task.request, hload]
  have hshaped := shaped_disguiseArguments baseUrl serverId adminApiKey members
  have hproper : ∀ p ∈ Operation.updateDisguise.parameters,
      Json.Proper 200 (Operation.argument (disguiseArguments baseUrl serverId adminApiKey members) p) := by
    simp only [Operation.parameters, List.forall_mem_cons]
    exact ⟨.str (Text.paired_ofChars _), .str (Text.paired_ofChars _), .str (Text.paired_ofChars _),
      hread.proper hdepth, List.forall_mem_nil _⟩
  have hwritable : ∀ p ∈ Operation.updateDisguise.parameters,
      Json.Writable (Operation.argument (disguiseArguments baseUrl serverId adminApiKey members) p) := by
    simp only [Operation.parameters, List.forall_mem_cons]
    exact ⟨.str _, .str _, .str _, hread.writable hfinite, List.forall_mem_nil _⟩
  obtain ⟨payload, hpayload, hspawns, -⟩ := Operation.run_of_suitable ⟨hshaped, hwritable⟩ hproper
    (Config.ofEnvironment w.directory w.env) w.env.debug w.runner
  exact ⟨payload, (Task.spawns_run hrequest asJson).trans hspawns, hpayload⟩

/-- A disguise on the command line and the same one in a file start the same process and end in the same way, however
the lines of the file end. If the text denotes an object of finite numbers with brackets that are not too deep, one
process is started, and it is sent this object, its members in their order. -/
theorem run_inline_or_file {w : World} {text path : List Char} {inline file : List (List Char)}
    (h : Exchanges text path inline file) (hfile : Holds w.files path (Utf8.encode text)) (terminal : Bool) :
    ((run w ("update-disguise".toList :: inline)).finish terminal).status =
        ((run w ("update-disguise".toList :: file)).finish terminal).status ∧
      ((run w ("update-disguise".toList :: inline)).finish terminal).spawns =
        ((run w ("update-disguise".toList :: file)).finish terminal).spawns ∧
      ∀ baseUrl serverId adminApiKey asJson members,
        invocation w.env w.files ("update-disguise".toList :: inline) =
          .ok (.task (.updateDisguise baseUrl serverId adminApiKey ⟨none, some text, none⟩) asJson) →
        Json.read text = .ok (.object members) → Json.AllFinite (.object members) →
        (Value.object members).depth ≤ 200 →
        ∃ payload, ((run w ("update-disguise".toList :: inline)).finish terminal).spawns =
            [⟨[(Config.ofEnvironment w.directory w.env).program, (Config.ofEnvironment w.directory w.env).script,
              "updateDisguise", Text.ofChars payload], (Config.ofEnvironment w.directory w.env).deadline⟩] ∧
          Json.read payload = .ok (.object [("baseUrl", trimmed baseUrl), ("serverId", trimmed serverId),
            ("adminApiKey", trimmed adminApiKey), ("disguise", .object members)]) := by
  have halike : EndAlike terminal (run w ("update-disguise".toList :: inline))
      (run w ("update-disguise".toList :: file)) := by
    rw [run_updateDisguise, run_updateDisguise, invocation_updateDisguise, invocation_updateDisguise]
    rcases alike_invocation_exchanges h hfile w.env with ⟨e, hinline, hfile⟩ | ⟨i, i', hinline, hfile, hsame⟩
    · rw [hinline, hfile]
      exact .refl terminal _
    · rw [hinline, hfile]
      cases hsame with
      | help c => exact .refl terminal _
      | task baseUrl serverId adminApiKey domain asJson =>
        exact Task.endAlike_updateDisguise w terminal asJson _ _ _ (loadAlike_file domain text)
  refine ⟨halike.status, halike.spawns, ?_⟩
  intro baseUrl serverId adminApiKey asJson members hasked hread hfinite hdepth
  have hload : DisguiseSources.load ⟨none, some text, none⟩ = .ok members := by
    rw [DisguiseSources.load, disguiseOfText, hread]
  obtain ⟨payload, hspawns, hpayload⟩ := Task.spawns_updateDisguise w baseUrl serverId adminApiKey hload
    (Json.readable_of_read hread) hfinite hdepth asJson
  refine ⟨payload, ?_, hpayload⟩
  rw [run_updateDisguise, hasked]
  exact hspawns

/-- An object on two lines, the first of which ends with both characters. -/
def twoLines : List Char := "\x7b\"b\": 1,\r\n\"a\": [true]\x7d".toList

/-- An installation where every path leads to a file with such an object. -/
def twoLinesWorld : World := ⟨⟨[]⟩, "/opt", fun _ => some (.file (Utf8.encode twoLines)), fun _ => .expired⟩

theorem run_inline_or_file_lines : ∃ payload,
    ((run twoLinesWorld ["update-disguise".toList, "--base-url=u".toList, "--disguise-file=d".toList,
        "--server-id".toList, "s".toList, "--admin-api-key=k".toList]).finish false).spawns =
      [⟨["node", "/opt/backend/desktop-bridge.cjs", "updateDisguise", Text.ofChars payload], none⟩] ∧
    Json.read payload = .ok (.object [("baseUrl", .str "u"), ("serverId", .str "s"), ("adminApiKey", .str "k"),
      ("disguise", .object [("b", .int 1), ("a", .array [.bool true])])]) := by
  have hlast : Exchanges twoLines "d".toList
      ["--disguise".toList, twoLines, "--server-id".toList, "s".toList, "--admin-api-key=k".toList]
      ["--disguise-file=d".toList, "--server-id".toList, "s".toList, "--admin-api-key=k".toList] := by
    refine .here .separate .attached fun s hs => ?_
    cases hs
    exact ⟨rfl, rfl⟩
  have hexchanges : Exchanges twoLines "d".toList ("--base-url=u".toList :: _) ("--base-url=u".toList :: _) :=
    .single (by decide) (by decide) (by decide) hlast
  have hasked : invocation twoLinesWorld.env twoLinesWorld.files ["update-disguise".toList, "--base-url=u".toList,
      "--disguise".toList, twoLines, "--server-id".toList, "s".toList, "--admin-api-key=k".toList] =
      .ok (.task (.updateDisguise "u".toList "s".toList "k".toList ⟨none, some twoLines, none⟩) false) := by rfl
  have hread : Json.read twoLines = .ok (.object [("b", .int 1), ("a", .array [.bool true])]) := by rfl
  have hfinite : Json.AllFinite (.object [("b", .int 1), ("a", .array [.bool true])]) :=
    .object (List.forall_mem_cons.mpr ⟨.int 1, List.forall_mem_singleton.mpr
      (.array (List.forall_mem_singleton.mpr (.bool true)))⟩)
  obtain ⟨-, hspawns, hsent⟩ := run_inline_or_file (w := twoLinesWorld) hexchanges ⟨by decide, rfl⟩ false
  obtain ⟨payload, hpayload, hpayloadRead⟩ := hsent _ _ _ _ _ hasked hread hfinite (by decide)
  exact ⟨payload, hspawns.symm.trans hpayload, hpayloadRead⟩

end AgentBridge.CommandLine
