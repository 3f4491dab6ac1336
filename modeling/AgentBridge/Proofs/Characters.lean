import AgentBridge.Proofs.OutcomeLine

/-
  AgentBridge.Proofs.Characters — texts without surrogates, from a process to the terminal.

  A surrogate without its partner cannot be written on a stream, and only a process can bring
  one in. Where the processes write none (`Outcome.Plain`), the value of an operation has none
  (`Operation.ofCharacters_of_run`) and the message of a failure has none
  (`Task.Fails.ofCharacters`). Then every line that shows the value to people can be written
  (`Task.status_present`).
-/

namespace AgentBridge

/-! ## Values -/

/-- The texts in a value and the keys of its objects are made of characters. -/
inductive Json.OfCharacters : Json → Prop
  | null : OfCharacters .null
  | bool (b : Bool) : OfCharacters (.bool b)
  | int (n : Int) : OfCharacters (.int n)
  | float (x : Binary64) : OfCharacters (.float x)
  | str {t : Text} : t.OfCharacters → OfCharacters (.str t)
  | array {items : List Json} : (∀ v ∈ items, OfCharacters v) → OfCharacters (.array items)
  | object {members : List (Text × Json)} : (∀ kv ∈ members, kv.1.OfCharacters) →
    (∀ kv ∈ members, OfCharacters kv.2) → OfCharacters (.object members)

namespace Json.OfCharacters

/-- A member of an object, or null where there is none. -/
theorem getD {m : Members Empty} (h : OfCharacters (.object m)) (key : Text) :
    OfCharacters ((m.get? key).getD .null) := by
  cases hget : m.get? key with
  | none => exact .null
  | some v =>
    cases h with
    | object _ hall => exact hall _ (Members.mem_of_get? hget)

/-- Only a text by itself is shown as it is, and everything else is shown in characters. -/
theorem display {v : Json} (h : OfCharacters v) : v.display.OfCharacters := by
  cases h with
  | str ht => exact ht
  | _ => exact Text.ofCharacters_ofChars _

end Json.OfCharacters

/-! ## Processes -/

/-- What a process writes has no surrogates: if it is JSON, its value is made of characters. -/
def Outcome.Plain (o : Outcome) : Prop :=
  ∀ status stdout stderr out v, o = .exited status stdout stderr → Utf8.decode? (stdout.getD []) = .ok out →
    Json.read (Blank.trim out) = .ok v → v.OfCharacters

theorem Outcome.Plain.ofCharacters {o : Outcome} {v : Json} (h : o.Plain) (hv : o.Succeeds v) : v.OfCharacters := by
  obtain ⟨status, stdout, stderr, out, e, ho, hdecode, he, -, rfl⟩ := hv
  obtain ⟨m, hread, hheld⟩ := Envelope.exists_members he
  rw [← hheld.data]
  exact (h status stdout stderr out _ ho hdecode hread).getD "data"

theorem Runner.quotes_ofCharacters {runner : Runner} (h : ∀ spawn, (runner spawn).Plain) :
    Runner.Quotes Text.OfCharacters runner := by
  intro spawn status stdout stderr hrun out e message hdecode he herror
  obtain ⟨m, hread, hheld⟩ := Envelope.exists_members he
  cases h spawn status stdout stderr out _ hrun hdecode hread with
  | object _ hall =>
    cases hall _ (Members.mem_of_get? (hheld.get?_error herror)) with
    | str ht => exact ht

theorem Operation.ofCharacters_of_run {op : Operation} {c : Config} {debug : Bool} {runner : Runner}
    {args : Members Empty} {v : Json} (hplain : ∀ spawn, (runner spawn).Plain)
    (h : (op.run c debug runner args).result = .ok v) : v.OfCharacters := by
  rcases Operation.null_or_succeeds h with rfl | ⟨spawn, hv⟩
  · exact .null
  · exact (hplain spawn).ofCharacters hv

/-! ## Status pages -/

namespace StatusPage

variable {m : Members Empty}

theorem ofCharacters_keyValue (key : String) {v : Json} (h : v.OfCharacters) : (keyValue key v).OfCharacters := by
  have hshown : (shown v).OfCharacters := by
    unfold shown
    split
    · exact Text.ofCharacters_ofString _
    · exact h.display
  unfold keyValue
  exact (((Text.ofCharacters_ofString _).append (Text.ofCharacters_ofString _)).append
    (Text.ofCharacters_ofString _)).append hshown

theorem ofCharacters_members? {v : Json} {inner : Members Empty} (h : v.OfCharacters) (hv : members? v = some inner) :
    Json.OfCharacters (.object inner) := by
  unfold members? at hv
  split at hv
  · cases hv
    exact h
  · cases hv

theorem ofCharacters_disguise? (h : Json.OfCharacters (.object m)) {v : Json} (hv : disguise? m = some v) :
    v.OfCharacters := by
  obtain ⟨imported, himported, hv⟩ := Option.bind_eq_some_iff.mp hv
  obtain ⟨reality, hreality, hv⟩ := Option.bind_eq_some_iff.mp hv
  have hinner := ofCharacters_members? (h.getD "importedConfig") himported
  have hname := ofCharacters_members? (hinner.getD "reality") hreality
  dsimp only at hv
  split at hv
  · cases hv
    exact hname.getD "serverName"
  · cases hv

theorem ofCharacters_disguiseLine (h : Json.OfCharacters (.object m)) : (disguiseLine m).OfCharacters := by
  apply (Text.ofCharacters_ofString _).append
  cases hv : disguise? m with
  | none => exact Text.ofCharacters_ofString _
  | some v => exact (ofCharacters_disguise? h hv).display

theorem ofCharacters_headline (env : Environment) : (Terminal.bold env (headline m)).OfCharacters := by
  have hline : (headline m).OfCharacters := by
    unfold headline
    split
    · exact Text.ofCharacters_ofString _
    · exact Text.ofCharacters_ofString _
  unfold Terminal.bold
  split
  · exact ((Text.ofCharacters_ofString "\x1b[1m").append hline).append (Text.ofCharacters_ofString "\x1b[0m")
  · exact hline

theorem ofCharacters_page (env : Environment) (h : Json.OfCharacters (.object m)) :
    ∀ line ∈ page env m, line.OfCharacters := by
  have hyes : ∀ s : String, Json.OfCharacters (.str s) := fun s => .str (Text.ofCharacters_ofString s)
  have hfield : ∀ key name : String, (keyValue key (fieldOf m name)).OfCharacters := fun key name =>
    ofCharacters_keyValue key (h.getD name)
  have himported : (keyValue "Imported"
      (.str (if (fieldOf m "imported").isTruthy then "yes" else "no"))).OfCharacters := by
    apply ofCharacters_keyValue
    split
    · exact hyes "yes"
    · exact hyes "no"
  unfold page
  simp only [List.forall_mem_cons]
  exact ⟨ofCharacters_headline env, hfield _ _, himported, hfield _ _, hfield _ _, hfield _ _, hfield _ _,
    ofCharacters_disguiseLine h, List.forall_mem_nil _⟩

end StatusPage

/-! ## What is written -/

namespace CommandLine

/-- Results that are made of characters can all be written. -/
theorem Run.status_results (terminal : Bool) {results : List Text} (h : ∀ line ∈ results, line.OfCharacters) :
    (Run.finish terminal ⟨.ok 0, results.map .result, []⟩).status = .ok 0 := by
  have hfault : (Terminal.write terminal (results.map .result)).fault = none := by
    induction results with
    | nil => rfl
    | cons line results ih =>
      obtain ⟨hline, hresults⟩ := List.forall_mem_cons.mp h
      obtain ⟨shown, hshown⟩ := Terminal.exists_characters_lineOn terminal hline
      simp only [List.map_cons, Terminal.write, Terminal.textOn, hshown, Terminal.Streams.after]
      exact ih hresults
  simp only [Run.finish, hfault]

variable {v : Json}

theorem Run.status_succeeded (terminal : Bool) (label : String) (hv : Json.Readable Json.nestingLimit v) :
    ((Run.succeeded label v).finish terminal).status = .ok 0 := by
  by_cases hnull : v = .null
  · subst hnull
    have hline : ∀ line ∈ [Text.ofString (label ++ " completed")], line.OfCharacters :=
      List.forall_mem_singleton.mpr (Text.ofCharacters_ofString _)
    exact Run.status_results terminal hline
  · obtain ⟨-, -, -, -, hstatus⟩ := Run.finish_indented terminal hv
    rw [Run.succeeded_of_ne_null label hnull]
    exact hstatus

/-- What a task shows to people can be written. -/
theorem Task.status_present (terminal : Bool) (task : Task) (env : Environment)
    (hv : Json.Readable Json.nestingLimit v) (hchars : v.OfCharacters) :
    ((task.present env v).finish terminal).status = .ok 0 := by
  cases task with
  | status =>
    by_cases hobject : ∃ m, v = .object m
    · obtain ⟨m, rfl⟩ := hobject
      exact Run.status_results terminal (StatusPage.ofCharacters_page env hchars)
    · have hlines := StatusPage.lines_of_not_object env (v := v) fun m hm => hobject ⟨m, hm⟩
      obtain ⟨-, -, -, -, hstatus⟩ := Run.finish_indented terminal hv
      simp only [Task.present, hlines]
      exact hstatus
  | _ => exact Run.status_succeeded terminal _ hv

/-- The message that a task fails with is made of characters. -/
theorem Task.Fails.ofCharacters {w : World} {task : Task} {message : Text} (hplain : ∀ spawn, (w.runner spawn).Plain)
    (h : task.Fails w message) : message.OfCharacters :=
  h.message_has .ofCharacters (Runner.quotes_ofCharacters hplain)

end CommandLine

end AgentBridge
