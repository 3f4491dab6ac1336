import AgentBridge.Proofs.Operations
import AgentBridge.Session

/-
  AgentBridge.Proofs.Sessions — the steps of a session do not depend on each other.

  A step takes nothing from the environment but whether to log remarks for debugging, so it
  comes to the same in every environment, but for its log (`Step.seen_result`), and what it
  starts is told by the configuration (`Step.mem_spawns`). A session hands on nothing else from
  one step to the next, so by induction on the steps each of them comes to what it comes to by
  itself (`Session.run_independent`).
-/

namespace AgentBridge

/-! ## Calls -/

/-- Some work without its log: its result and what it started. -/
def Traced.bare {α : Type} (t : Traced α) : α × List Spawn := (t.result, t.spawns)

section

variable (c : Config) (debug debug' : Bool) (runner : Runner)

/-- Debugging is seen in the log only. -/
theorem Config.bare_call (request : Call) :
    (c.call debug runner request).bare = (c.call debug' runner request).bare := by
  cases hargv : c.argv request with
  | error e =>
    unfold Config.call
    rw [hargv]
  | ok argv =>
    rw [call_of_argv c debug hargv, call_of_argv c debug' hargv]
    cases runner ⟨argv, c.deadline⟩ <;> rfl

theorem Operation.bare_run (op : Operation) (args : Members Empty) :
    (op.run c debug runner args).bare = (op.run c debug' runner args).bare := by
  cases hpack : op.pack args with
  | error e =>
    unfold run
    rw [hpack]
  | ok payload =>
    obtain ⟨hresult, hspawns⟩ := Prod.mk.inj (c.bare_call debug debug' runner ⟨op.action, .ofJson payload⟩)
    rw [Traced.bare, Traced.bare, result_run hpack, result_run hpack, spawns_run hpack, spawns_run hpack, hresult,
      hspawns]

theorem Operation.bare_runNamed (name : String) (args : Members Empty) :
    (runNamed name c debug runner args).bare = (runNamed name c debug' runner args).bare := by
  unfold runNamed
  split
  · exact bare_run c debug debug' runner _ args
  · rfl

end

/-- A configuration tells all of what is started but the action and the payload. -/
def Config.Starts (c : Config) (spawn : Spawn) : Prop :=
  (∃ action payload, spawn.argv = [c.program, c.script, action, payload]) ∧ spawn.deadline = c.deadline

section

variable {c : Config} {debug : Bool} {runner : Runner} {spawn : Spawn}

theorem Config.starts_of_call {request : Call} (h : spawn ∈ (c.call debug runner request).spawns) :
    c.Starts spawn := by
  cases hencode : request.payload.encode with
  | error e =>
    rw [call_of_unwritable c debug runner request.action hencode] at h
    cases h
  | ok text =>
    rw [call_of_argv c debug (argv_of_encode hencode)] at h
    obtain rfl := List.mem_singleton.mp h
    exact ⟨⟨_, _, rfl⟩, rfl⟩

theorem Operation.starts_of_runNamed {name : String} {args : Members Empty}
    (h : spawn ∈ (runNamed name c debug runner args).spawns) : c.Starts spawn := by
  unfold runNamed at h
  split at h
  · rename_i op _
    cases hpack : op.pack args with
    | error e =>
      unfold run at h
      rw [hpack] at h
      cases h
    | ok payload =>
      rw [spawns_run hpack] at h
      exact Config.starts_of_call h
  · cases h

end

/-! ## Steps -/

namespace Step

/-- What is seen of a step but its log: its result and what it started. A change of variables comes to nothing but the
environment itself, which is left out. -/
def seen (r : StepResult) : Except (Failure StepError) StepValue × List Spawn :=
  match r.result with
  | .ok (.environment _) => (.ok (.environment .empty), r.spawns)
  | _ => r.bare

theorem bare_ofTraced {ε : Type} {f : ε → OperationError} {t t' : Traced (Except (Failure ε) Json)}
    (h : t.bare = t'.bare) : (ofTraced f t).bare = (ofTraced f t').bare := by
  obtain ⟨hresult, hspawns⟩ := Prod.mk.inj h
  unfold ofTraced
  rw [hresult, hspawns]
  cases t'.result <;> rfl

theorem seen_congr {r r' : StepResult} (h : r.bare = r'.bare) : seen r = seen r' := by
  obtain ⟨hresult, hspawns⟩ := Prod.mk.inj h
  unfold seen
  rw [h, hresult, hspawns]

theorem bare_result (c : Config) (env env' : Environment) {s : Step} (h : ∀ entries, s ≠ .setVariables entries) :
    (s.result c env).bare = (s.result c env').bare := by
  cases s with
  | setVariables entries => exact absurd rfl (h entries)
  | run operation args runner => exact bare_ofTraced (Operation.bare_runNamed c _ _ runner operation args)
  | call request runner => exact bare_ofTraced (c.bare_call _ _ runner request)
  | callKnown action payload runner =>
    simp only [result]
    split
    · exact bare_ofTraced (c.bare_call _ _ runner _)
    · rfl
  | _ => rfl

/-- A step comes to the same in every environment. -/
theorem seen_result (c : Config) (env env' : Environment) (s : Step) :
    seen (s.result c env) = seen (s.result c env') := by
  cases s with
  | setVariables entries => rfl
  | _ => exact seen_congr (bare_result c env env' (fun _ h => nomatch h))

/-- The log of a step depends on the environment only by whether debugging is on. -/
theorem log_result (c : Config) {env env' : Environment} (h : env.debug = env'.debug) (s : Step) :
    (s.result c env).log = (s.result c env').log := by
  cases s with
  | setVariables entries => rfl
  | _ => simp only [result, h]

theorem spawns_ofTraced {ε : Type} {f : ε → OperationError} {t : Traced (Except (Failure ε) Json)} :
    (ofTraced f t).spawns = t.spawns := by
  unfold ofTraced
  cases t.result <;> rfl

/-- What a step starts is told by the configuration. -/
theorem starts_of_result {c : Config} {env : Environment} {s : Step} {spawn : Spawn}
    (h : spawn ∈ (s.result c env).spawns) : c.Starts spawn := by
  cases s with
  | run operation args runner =>
    rw [result, spawns_ofTraced] at h
    exact Operation.starts_of_runNamed h
  | call request runner =>
    rw [result, spawns_ofTraced] at h
    exact Config.starts_of_call h
  | callKnown action payload runner =>
    simp only [result] at h
    split at h
    · rw [spawns_ofTraced] at h
      exact Config.starts_of_call h
    · cases h
  | commandLine request =>
    simp only [result] at h
    split at h
    · cases h
    · cases h
  | _ => cases h

end Step

/-! ## Sessions -/

namespace Session

/-- Each step has its result in the environment that the steps before it have left. -/
theorem getElem?_run (c : Config) (env : Environment) (steps : List Step) (i : Nat) :
    (run c env steps)[i]? = steps[i]?.map fun s => s.result c (after env (steps.take i)) := by
  induction steps generalizing env i with
  | nil => rfl
  | cons s rest ih =>
    cases i with
    | zero => rfl
    | succ i => exact ih (s.after env) i

/-- Each step comes to what it comes to by itself. -/
theorem seen_run (c : Config) (env env' : Environment) (steps : List Step) :
    (run c env steps).map Step.seen = steps.map fun s => Step.seen (s.result c env') := by
  induction steps generalizing env with
  | nil => rfl
  | cons s rest ih =>
    -- The environment that the step leaves is another one, so the induction is over all of them.
    rw [run, List.map_cons, List.map_cons, ih (s.after env), Step.seen_result c env env' s]

/-- The steps of a session are independent of each other and of the environment. Each comes to what it comes to in a
session with the same configuration that has this step only and starts with no variables; so in two sessions, wherever
they have the same step, it comes to the same. The configuration that is asked for is the one that the session has, and
it tells what is started. The log of a step alone depends on the environment, and only by whether the variable for
debugging is "1" at that step. -/
theorem run_independent (c : Config) (env : Environment) (steps : List Step) :
    (run c env steps).map Step.seen = steps.flatMap (fun s => (run c .empty [s]).map Step.seen) ∧
    (∀ env' steps' (i j : Nat), steps[i]? = steps'[j]? →
      (run c env steps)[i]?.map Step.seen = (run c env' steps')[j]?.map Step.seen) ∧
    (∀ i : Nat, steps[i]? = some .configuration →
      (run c env steps)[i]?.map (·.result) = some (.ok (.configuration c))) ∧
    (∀ r ∈ run c env steps, ∀ spawn ∈ r.spawns, c.Starts spawn) ∧
    ∀ (i : Nat) (env' : Environment), (env'.get? "XRAY_DESKTOP_DEBUG" = some "1" ↔
        (after env (steps.take i)).get? "XRAY_DESKTOP_DEBUG" = some "1") →
      (run c env steps)[i]?.map (·.log) = steps[i]?.map fun s => (s.result c env').log := by
  refine ⟨?_, ?_, ?_, ?_, ?_⟩
  · rw [seen_run c env .empty steps, List.map_eq_flatMap]
    rfl
  · intro env' steps' i j h
    rw [← List.getElem?_map, ← List.getElem?_map, seen_run c env .empty, seen_run c env' .empty, List.getElem?_map,
      List.getElem?_map, h]
  · intro i h
    rw [getElem?_run, h]
    rfl
  · intro r hr spawn hspawn
    obtain ⟨i, hi⟩ := List.mem_iff_getElem?.mp hr
    rw [getElem?_run] at hi
    obtain ⟨s, -, rfl⟩ := Option.map_eq_some_iff.mp hi
    exact Step.starts_of_result hspawn
  · intro i env' h
    have hdebug : (after env (steps.take i)).debug = env'.debug := decide_eq_decide.mpr h.symm
    rw [getElem?_run, Option.map_map]
    congr 1
    funext s
    exact Step.log_result c hdebug s

/-- Another program, another deadline and debugging are set between two calls that are the same. -/
theorem run_independent_variables :
    ∃ c env steps first second, env = ⟨[("XRAY_DESKTOP_BRIDGE_TIMEOUT", "2")]⟩ ∧ c = Config.ofEnvironment "/opt" env ∧
      steps = [.call ⟨"connect", .null⟩ fun _ => .expired,
        .setVariables [("NODE_BINARY", "deno"), ("XRAY_DESKTOP_BRIDGE_TIMEOUT", "1"), ("XRAY_DESKTOP_DEBUG", "1")],
        .call ⟨"connect", .null⟩ fun _ => .expired] ∧
      (run c env steps)[0]? = some first ∧ (run c env steps)[2]? = some second ∧ Step.seen first = Step.seen second ∧
      first.log = [] ∧
      second.log = [⟨LogEntry.debugLevel, "bridge connect: node /opt/backend/desktop-bridge.cjs"⟩] := by
  let env : Environment := ⟨[("XRAY_DESKTOP_BRIDGE_TIMEOUT", "2")]⟩
  let c := Config.ofEnvironment "/opt" env
  let steps : List Step := [.call ⟨"connect", .null⟩ fun _ => .expired,
    .setVariables [("NODE_BINARY", "deno"), ("XRAY_DESKTOP_BRIDGE_TIMEOUT", "1"), ("XRAY_DESKTOP_DEBUG", "1")],
    .call ⟨"connect", .null⟩ fun _ => .expired]
  obtain ⟨-, hsame, -, -, hlog⟩ := run_independent c env steps
  have hseen := hsame env steps 0 2 rfl
  have hquiet := hlog 0 .empty (by decide)
  have hloud := hlog 2 ⟨[("XRAY_DESKTOP_DEBUG", "1")]⟩ (by decide)
  cases hfirst : (run c env steps)[0]? with
  | none =>
    rw [hfirst] at hquiet
    cases hquiet
  | some first =>
    cases hsecond : (run c env steps)[2]? with
    | none =>
      rw [hsecond] at hloud
      cases hloud
    | some second =>
      rw [hfirst] at hquiet hseen
      rw [hsecond] at hloud hseen
      refine ⟨c, env, steps, first, second, rfl, rfl, rfl, hfirst, hsecond, Option.some.inj hseen, ?_, ?_⟩
      · exact Option.some.inj hquiet
      · exact (Option.some.inj hloud).trans (by decide)

end Session

end AgentBridge
