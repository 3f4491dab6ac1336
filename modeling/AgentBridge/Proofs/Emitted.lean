import AgentBridge.Proofs.Commands
import AgentBridge.Proofs.Endings

/-
  AgentBridge.Proofs.Emitted — which of the texts that are sent out are standard.

  A payload is written strictly, so its text is always standard. Commands and backends write
  their values leniently: what they send out is standard exactly if the value is finite, and
  their refusals always are (`emitted_standard_iff`).
-/

namespace AgentBridge

namespace Payload

/-- A payload with a text is finite, and its text is standard. -/
theorem standard_of_encode {payload : Payload} {t : List Char} (h : payload.encode = .ok t) :
    payload.Finite ∧ Json.Standard t := by
  unfold encode at h
  cases ht : Json.writeAt style 0 payload with
  | error e =>
    rw [ht] at h
    cases h
  | ok text =>
    rw [ht] at h
    obtain rfl := Except.ok.inj h
    have hfinite := Json.finite_of_writeAt rfl ht
    exact ⟨hfinite, (Json.standard_iff ht).mpr hfinite⟩

end Payload

namespace Backend

/-- There is no output, or it is one line with a standard text. -/
def Finish.Standard (f : Finish) : Prop := f.stdout = [] ∨ ∃ t, f.stdout = t ++ ['\n'] ∧ Json.Standard t

theorem finite_success {v : Payload} : (Envelope.success v).Finite ↔ v.Finite := by
  cases v
  all_goals simp [Value.Finite, Envelope.success, Value.floats, Value.floatsOfMembers]

theorem Finish.standard_line {status : Int} {t : List Char} :
    (Finish.mk status (t ++ ['\n']) none).Standard ↔ Json.Standard t := by
  constructor
  · intro h
    rcases h with h | ⟨t', h, hstandard⟩
    · exact absurd h (List.append_ne_nil_of_right_ne_nil t (List.cons_ne_nil _ _))
    · rwa [List.append_cancel_right h]
  · intro h
    exact Or.inr ⟨t, rfl, h⟩

variable (debug : Bool)

theorem standard_refuse (message : Text) : ((refuse message).finish debug).Standard := by
  obtain ⟨line, hline, hrefuse⟩ := exists_refused message
  rw [hrefuse]
  exact Finish.standard_line.mpr ((Json.standard_iff hline).mpr (Envelope.finite_refusal message))

theorem standard_of_unhandled {e : Ending} (h : e.Unhandled) : (e.finish debug).Standard := by
  rcases h with _ | _
  · exact standard_refuse debug _
  · exact Or.inl rfl

/-- What a backend writes is standard, unless it is an answer with a number that is not finite. -/
theorem standard_finish_iff {h : Handled} :
    (h.finish debug).Standard ↔ ∀ v, h = .returned v → Fits v → v.Finite := by
  cases h with
  | returned v =>
    by_cases hfits : Fits v
    · obtain ⟨line, hline, hsettle⟩ := exists_answered hfits
      have hiff := (Json.standard_iff hline).trans finite_success
      rw [Handled.finish, hsettle]
      constructor
      · intro hstandard v' hv' _
        cases hv'
        exact hiff.mp (Finish.standard_line.mp hstandard)
      · intro hfinite
        exact Finish.standard_line.mpr (hiff.mpr (hfinite v rfl hfits))
    · refine iff_of_true (Or.inl (crashes_of_not_fits debug hfits).silent) ?_
      intro v' hv' hfits'
      cases hv'
      exact absurd hfits' hfits
  | failed kind message =>
    refine iff_of_true (standard_refuse debug _) fun v hv => ?_
    cases hv
  | unspeakable complaint =>
    refine iff_of_true (Or.inl rfl) fun v hv => ?_
    cases hv
  | left status complaint =>
    refine iff_of_true (Or.inl rfl) fun v hv => ?_
    cases hv

end Backend

open CommandLine (World Task Run operate Told)

/-- A payload that is sent is finite, and its text is standard. A command that was asked for JSON tells the outcome of
an operation as a standard text exactly if its value is finite, and so does a command that presents the value itself;
refusals are always standard. What a backend writes is standard, unless it is an answer with a value that is not
finite. And no standard text has the word of such a number outside its strings. -/
theorem emitted_standard_iff {m : Type → Type} [Monad m] [LawfulMonad m] :
    (∀ (payload : Payload) t, payload.encode = .ok t → payload.Finite ∧ Json.Standard t) ∧
    (∀ (w : World) (task : Task) terminal, Told w ((task.run w true).finish terminal)) ∧
    (∀ (w : World) op args label terminal v, v ≠ .null →
      (Operation.run op (Config.ofEnvironment w.directory w.env) w.env.debug w.runner args).result = .ok v →
      ∃ t, ((operate w op args false (Run.succeeded label)).finish terminal).output = t ++ ['\n'] ∧
        ((operate w op args false (Run.succeeded label)).finish terminal).status = .ok 0 ∧
        Json.read t = .ok v ∧ (Json.Standard t ↔ v.Finite)) ∧
    (∀ (w : World) terminal v, (∀ status, v ≠ .object status) →
      (Operation.run .status (Config.ofEnvironment w.directory w.env) w.env.debug w.runner []).result = .ok v →
      ∃ t, ((Task.status.run w false).finish terminal).output = t ++ ['\n'] ∧
        ((Task.status.run w false).finish terminal).status = .ok 0 ∧
        Json.read t = .ok v ∧ (Json.Standard t ↔ v.Finite)) ∧
    (∀ (d : DispatchIn m) debug argv,
      (∃ handler v, Backend.Runs d argv handler v ∧ Backend.runIn d debug argv = Handled.finish debug <$> handler v) ∨
        ∃ f, Backend.runIn d debug argv = pure f ∧ f.Standard) ∧
    (∀ debug (h : Handled), (h.finish debug).Standard ↔ ∀ v, h = .returned v → Backend.Fits v → v.Finite) ∧
    (∀ t, Json.Standard t → ¬ Json.NamesInfinity t) := by
  refine ⟨fun _ _ => Payload.standard_of_encode, fun w task terminal => CommandLine.told_run terminal task, ?_, ?_, ?_,
    fun debug h => Backend.standard_finish_iff debug, fun t => Json.Standard.not_namesInfinity⟩
  · intro w op args label terminal v hnull hresult
    apply CommandLine.output_of_present terminal hresult
    rcases v with _ | _ | _ | _ | _ | _ | _ | _
    case null => exact absurd rfl hnull
    all_goals rfl
  · intro w terminal v hobject hresult
    apply CommandLine.output_of_present terminal hresult
    rw [StatusPage.lines_of_not_object w.env hobject]
  · intro d debug argv
    rcases Backend.runIn_cases debug d argv with hruns | ⟨-, e, h, he⟩
    · exact Or.inl hruns
    · exact Or.inr ⟨e.finish debug, h, Backend.standard_of_unhandled debug he⟩

/-- A backend answers with a word that no standard text has. -/
theorem emitted_standard_iff_nan :
    ¬ (Backend.run (.table [("status", some (Handler.constant (.float .nan)))]) false ["status"]).Standard := by
  obtain ⟨-, -, -, -, -, hfinish, -⟩ := emitted_standard_iff (m := Id)
  have hrun : Backend.run (.table [("status", some (Handler.constant (.float .nan)))]) false ["status"] =
      (Handled.returned (.float .nan)).finish false := rfl
  have hfits : Backend.Fits (.float .nan) := ⟨⟨_, rfl⟩, by decide⟩
  rw [hrun, hfinish]
  intro h
  exact absurd (h _ rfl hfits) (by decide)

end AgentBridge
