import AgentBridge.Config
import AgentBridge.Proofs.NumberSpellings
import AgentBridge.Proofs.Shapes

/-
  AgentBridge.Proofs.Configurations — every environment gives a valid configuration.

  A configuration is read back from its own fields (`ofMembers_again`), whatever it was made
  from: its script is in normal form, and its deadline is a number that the check lets pass.
  The fields that the environment gives are those of a configuration, so no environment can be
  refused (`ofMembers_environmentMembers`). It sets a deadline exactly where it spells a number
  whose value is greater than zero (`ofEnvironment_valid`); a literal that is rounded to zero
  sets none (`secondsOf_isSome_iff`).
-/

namespace AgentBridge

open Binary64

/-! ## Fields -/

namespace Deadline

theorem ofSeconds?_seconds (d : Deadline) : ofSeconds? d.seconds = some d := dif_pos d.positive

theorem map_seconds_ofSeconds? (x : Binary64) :
    (ofSeconds? x).map seconds = if x.isPositive = true then some x else none := by
  unfold ofSeconds?
  split
  · rfl
  · rfl

end Deadline

namespace Config

theorem deadlineOf_seconds (env : Environment) : (deadlineOf env).map Deadline.seconds = secondsOf env := by
  unfold deadlineOf secondsOf
  simp only [Option.bind_eq_bind, Option.map_bind, Function.comp_def, Deadline.map_seconds_ofSeconds?]

theorem deadlineRule_float (d : Deadline) : deadlineRule (.float d.seconds) = .ok d := by
  simp only [deadlineRule, numberRule, bind, Except.bind, Deadline.ofSeconds?_seconds]

/-- A configuration is read back from its own fields, if its script is in normal form. -/
theorem ofMembers_toMembers {c : Config} (h : Path.normal c.script = c.script) : ofMembers c.toMembers = .ok c := by
  have hprogram : Shape.required c.toMembers "node_binary" Rule.text = .ok c.program := rfl
  have hscript : Shape.required c.toMembers "script_path" pathRule = .ok c.script := by
    refine Shape.required_eq_ok_iff.mpr ⟨.str c.script, rfl, ?_⟩
    rw [pathRule, h]
  have hdeadline : Shape.withDefault c.toMembers "timeout" none (Rule.orNull deadlineRule) = .ok c.deadline := by
    refine Shape.withDefault_eq_ok_iff.mpr (Or.inr ⟨_, rfl, ?_⟩)
    cases c.deadline with
    | none => rfl
    | some d =>
      show (deadlineRule (.float d.seconds)).map some = .ok (some d)
      rw [deadlineRule_float]
      rfl
  rw [ofMembers, hprogram, hscript, hdeadline]
  rfl

/-- Scripts are in normal form. -/
theorem normal_script {m : Members Empty} {c : Config} (h : ofMembers m = .ok c) : Path.normal c.script = c.script := by
  unfold ofMembers at h
  simp only [Checked.seq_eq_ok_iff, Checked.map_eq_ok_iff, Shape.required_eq_ok_iff] at h
  obtain ⟨_, d, ⟨_, script, ⟨program, -, rfl⟩, ⟨v, -, hscript⟩, rfl⟩, -, rfl⟩ := h
  cases v with
  | str s =>
    obtain rfl := Except.ok.inj hscript
    exact Path.normal_normal s
  | _ => cases hscript

/-- Whatever fields a configuration is from, its own fields give it again. -/
theorem ofMembers_again {m : Members Empty} {c : Config} (h : ofMembers m = .ok c) : ofMembers c.toMembers = .ok c :=
  ofMembers_toMembers (normal_script h)

/-! ## The environment -/

section

variable (directory : Text) (env : Environment)

theorem environmentMembers_eq : environmentMembers directory env = (ofEnvironment directory env).toMembers := by
  have hdeadline : (ofEnvironment directory env).deadline = deadlineOf env := rfl
  unfold environmentMembers toMembers
  rw [← deadlineOf_seconds, hdeadline]
  cases deadlineOf env with
  | none => rfl
  | some d => rfl

/-- The checks pass what the environment gives. -/
theorem ofMembers_environmentMembers :
    ofMembers (environmentMembers directory env) = .ok (ofEnvironment directory env) := by
  rw [environmentMembers_eq]
  exact ofMembers_toMembers (Path.normal_normal _)

end

theorem secondsOf_eq_some_iff {env : Environment} {x : Binary64} : secondsOf env = some x ↔
    ∃ typed negative m, env.get? "XRAY_DESKTOP_BRIDGE_TIMEOUT" = some typed ∧
      Spells GroupedDigits (Blank.trim typed.toList) negative m ∧ x = m.rounded negative ∧
      ∃ v, x.value? = some v ∧ 0 < v := by
  simp only [secondsOf, Option.bind_eq_bind, Option.bind_eq_some_iff, ofEnvironment?_eq_some_iff]
  constructor
  · rintro ⟨typed, htyped, y, ⟨negative, m, hm, rfl⟩, hx⟩
    obtain ⟨hpos, hx⟩ := Option.ite_none_right_eq_some.mp hx
    obtain rfl := Option.some.inj hx
    exact ⟨typed, negative, m, htyped, hm, rfl, isPositive_iff.mp hpos⟩
  · rintro ⟨typed, negative, m, htyped, hm, rfl, hpos⟩
    exact ⟨typed, htyped, _, ⟨negative, m, hm, rfl⟩, if_pos (isPositive_iff.mpr hpos)⟩

/-- A deadline is set by a literal without a minus that stands for more than half of the least
positive number. -/
theorem secondsOf_isSome_iff {env : Environment} : (secondsOf env).isSome = true ↔
    ∃ typed m, env.get? "XRAY_DESKTOP_BRIDGE_TIMEOUT" = some typed ∧
      Spells GroupedDigits (Blank.trim typed.toList) false m ∧ m.Exceeds halfLeast := by
  rw [Option.isSome_iff_exists]
  simp only [secondsOf_eq_some_iff, ← isPositive_iff]
  constructor
  · rintro ⟨_, typed, negative, m, htyped, hm, rfl, hpos⟩
    obtain ⟨rfl, hexceeds⟩ := (isPositive_rounded_iff hm).mp hpos
    exact ⟨typed, m, htyped, hm, hexceeds⟩
  · rintro ⟨typed, m, htyped, hm, hexceeds⟩
    exact ⟨_, typed, false, m, htyped, hm, rfl, (isPositive_rounded_iff hm).mpr ⟨rfl, hexceeds⟩⟩

/-- Every environment gives a configuration that the checks let pass. It has a program, its
deadline is the number that is spelled if that is greater than zero, which is so for literals
without a minus above half of the least positive number, and its own fields give it again. -/
theorem ofEnvironment_valid (directory : Text) (env : Environment) :
    ∃ c, c = ofEnvironment directory env ∧ ofMembers (environmentMembers directory env) = .ok c ∧ c.program ≠ [] ∧
      (∀ d, c.deadline = some d → ∃ v, d.seconds.value? = some v ∧ 0 < v) ∧
      (∀ x, c.deadline.map Deadline.seconds = some x ↔
        ∃ typed negative m, env.get? "XRAY_DESKTOP_BRIDGE_TIMEOUT" = some typed ∧
          Spells GroupedDigits (Blank.trim typed.toList) negative m ∧ x = m.rounded negative ∧
          ∃ v, x.value? = some v ∧ 0 < v) ∧
      (c.deadline.isSome = true ↔ ∃ typed m, env.get? "XRAY_DESKTOP_BRIDGE_TIMEOUT" = some typed ∧
        Spells GroupedDigits (Blank.trim typed.toList) false m ∧ m.Exceeds halfLeast) ∧
      ofMembers c.toMembers = .ok c := by
  have hchecked := ofMembers_environmentMembers directory env
  have hseconds : (ofEnvironment directory env).deadline.map Deadline.seconds = secondsOf env := deadlineOf_seconds env
  refine ⟨_, rfl, hchecked, ?_, ?_, ?_, ?_, ofMembers_again hchecked⟩
  · have hne : (programOf env).toList ≠ [] := fun h => programOf_ne_empty env (String.toList_eq_nil_iff.mp h)
    exact fun h => hne (List.map_eq_nil_iff.mp h)
  · exact fun d _ => isPositive_iff.mp d.positive
  · intro x
    rw [hseconds]
    exact secondsOf_eq_some_iff
  · rw [← secondsOf_isSome_iff, ← hseconds, Option.isSome_map]

example : secondsOf ⟨[("XRAY_DESKTOP_BRIDGE_TIMEOUT", " +1_0.5E-1 ")]⟩ = some (.ofRatio false 21 20) := by decide
example : secondsOf ⟨[("XRAY_DESKTOP_BRIDGE_TIMEOUT", "1e-400")]⟩ = none := by decide +kernel

end Config

end AgentBridge
