import AgentBridge.CommandLine.Invocation
import AgentBridge.Proofs.Outcome

/-
  AgentBridge.Proofs.Options — command lines that differ in the values of an option.

  An option takes its value from the next argument or from behind an equals sign
  (`scan_separate`, `scan_attached`), a switch takes none (`scan_switch`); every other argument
  is dealt with by itself (`scan_argument`). So two lists of arguments that differ in the values
  of one option only (`Varies`) are scanned alike: both are at fault in the same way, or the
  options and arguments are the same but for those values (`alike_scan`, by induction on how
  they differ).
-/

namespace AgentBridge.CommandLine

/-! ## Options -/

namespace Opt

/-- Options have different names: looking for the name of one among all of them finds it. -/
theorem name_inj {o p : Opt} (h : o.name.toList = p.name.toList) : o = p := by
  have hfind : ∀ q : Opt, find? [.baseUrl, .token, .serverId, .adminApiKey, .domain, .disguise, .disguiseFile, .json,
      .version, .help] q.name.toList = some q := by
    intro q
    cases q <;> rfl
  have hsame := hfind o
  rw [h, hfind p] at hsame
  exact (Option.some.inj hsame).symm

theorem not_mem_name (o : Opt) : '=' ∉ o.name.toList := by
  cases o <;> decide

theorem find?_eq_some {known : List Opt} {typed : List Char} {o : Opt} (h : find? known typed = some o) :
    o ∈ known ∧ o.name.toList = typed := by
  unfold find? at h
  exact ⟨List.mem_of_find?_eq_some h, by simpa using List.find?_some h⟩

/-- An option that is known is found under its name. -/
theorem find?_name {known : List Opt} {o : Opt} (h : o ∈ known) : find? known o.name.toList = some o := by
  cases hfound : find? known o.name.toList with
  | none => exact absurd (List.find?_eq_none.mp hfound o h) (by simp)
  | some p => rw [name_inj (find?_eq_some hfound).2]

theorem name_append_ne (o : Opt) (cs : List Char) : o.name.toList ++ cs ≠ optionsEnd := by
  have hlong : optionsEnd.length < o.name.toList.length := by cases o <;> decide
  intro h
  have hlength := congrArg List.length h
  rw [List.length_append] at hlength
  omega

theorem isOption_name (o : Opt) (cs : List Char) : isOption (o.name.toList ++ cs) = true := by
  cases o <;> rfl

end Opt

variable {known : List Opt} {o : Opt}

/-- An option takes the next argument for its value, whatever that is. -/
theorem scan_separate (ho : o ∈ known) (ht : o.takesValue = true) (v : List Char) (rest : List (List Char)) :
    scan known true (o.name.toList :: v :: rest) = (scan known true rest).map (·.addOption o v) := by
  have hne := o.name_append_ne []
  have hoption := o.isOption_name []
  have hcut : cutAt? '=' o.name.toList = none := cutAt?_eq_none_iff.mpr o.not_mem_name
  rw [List.append_nil] at hne hoption
  rw [scan, if_neg hne, hoption]
  simp only [nameAndValue, hcut, Opt.find?_name ho, ht, Bool.not_true, Bool.false_eq_true, if_false, if_true]

theorem scan_attached (ho : o ∈ known) (ht : o.takesValue = true) (v : List Char) (rest : List (List Char)) :
    scan known true ((o.name.toList ++ '=' :: v) :: rest) = (scan known true rest).map (·.addOption o v) := by
  have hcut : cutAt? '=' (o.name.toList ++ '=' :: v) = some (o.name.toList, v) :=
    cutAt?_eq_some_iff.mpr ⟨rfl, o.not_mem_name⟩
  rw [scan, if_neg (o.name_append_ne _), o.isOption_name]
  simp only [nameAndValue, hcut, Opt.find?_name ho, ht, Bool.not_true, Bool.false_eq_true, if_false, if_true]

/-- A switch takes nothing from behind it. -/
theorem scan_switch (ho : o ∈ known) (ht : o.takesValue = false) (rest : List (List Char)) :
    scan known true (o.name.toList :: rest) = (scan known true rest).map (·.addOption o []) := by
  have hne := o.name_append_ne []
  have hoption := o.isOption_name []
  have hcut : cutAt? '=' o.name.toList = none := cutAt?_eq_none_iff.mpr o.not_mem_name
  rw [List.append_nil] at hne hoption
  rw [scan, if_neg hne, hoption]
  simp only [nameAndValue, hcut, Opt.find?_name ho, ht, Bool.not_true, Bool.false_eq_true, if_false]

/-- An argument that does not end the options and waits for no value is at fault, or no option, or it is dealt with by
itself. -/
theorem scan_argument {argument : List Char} (hne : argument ≠ optionsEnd)
    (hname : ∀ p ∈ known, p.takesValue = true → argument ≠ p.name.toList) (interspersed : Bool) :
    (∃ e, ∀ rest, scan known interspersed (argument :: rest) = .error e) ∨ isOption argument = false ∨
      ∃ p v, p.name.toList = (nameAndValue argument).1 ∧
        ∀ rest, scan known interspersed (argument :: rest) = (scan known interspersed rest).map (·.addOption p v) := by
  cases hoption : isOption argument with
  | false => exact Or.inr (Or.inl rfl)
  | true =>
    cases hfound : Opt.find? known (nameAndValue argument).1 with
    | none =>
      refine Or.inl ⟨unknownOption known argument, fun rest => ?_⟩
      rw [scan, if_neg hne, hoption, hfound]
      rfl
    | some p =>
      cases hvalue : (nameAndValue argument).2 with
      | some v =>
        cases ht : p.takesValue with
        | true =>
          refine Or.inr (Or.inr ⟨p, v, (Opt.find?_eq_some hfound).2, fun rest => ?_⟩)
          rw [scan, if_neg hne, hoption, hfound, hvalue]
          simp only [ht, Bool.not_true, Bool.false_eq_true, if_false, if_true]
        | false =>
          refine Or.inl ⟨.takesNoValue p, fun rest => ?_⟩
          rw [scan, if_neg hne, hoption, hfound, hvalue]
          simp only [ht, Bool.not_true, Bool.false_eq_true, if_false]
      | none =>
        -- Without an equals sign the name is the whole argument, so this option does not wait for a value.
        have hwhole : (nameAndValue argument).1 = argument := by
          unfold nameAndValue at hvalue ⊢
          split at hvalue
          · cases hvalue
          · rfl
        have ht : p.takesValue = false := by
          rw [hwhole] at hfound
          obtain ⟨hknown, hsame⟩ := Opt.find?_eq_some hfound
          cases htakes : p.takesValue with
          | false => rfl
          | true => exact absurd hsame.symm (hname p hknown htakes)
        refine Or.inr (Or.inr ⟨p, [], (Opt.find?_eq_some hfound).2, fun rest => ?_⟩)
        rw [scan, if_neg hne, hoption, hfound, hvalue]
        simp only [ht, Bool.not_true, Bool.false_eq_true, if_false]

/-- Where options may follow positional arguments, such an argument is at fault, positional, or an option. -/
theorem scan_single {argument : List Char} (hne : argument ≠ optionsEnd)
    (hname : ∀ p ∈ known, p.takesValue = true → argument ≠ p.name.toList) :
    (∃ e, ∀ rest, scan known true (argument :: rest) = .error e) ∨
      (∀ rest, scan known true (argument :: rest) = (scan known true rest).map (·.addRest argument)) ∨
      ∃ p v, p.name.toList = (nameAndValue argument).1 ∧
        ∀ rest, scan known true (argument :: rest) = (scan known true rest).map (·.addOption p v) := by
  rcases scan_argument hne hname true with he | hoption | hp
  · exact Or.inl he
  · refine Or.inr (Or.inl fun rest => ?_)
    rw [scan, if_neg hne, hoption]
    rfl
  · exact Or.inr (Or.inr hp)

/-! ## Command lines that differ in an option -/

/-- Two lists of arguments differ in the values of an option only. -/
inductive Varies (known : List Opt) (o : Opt) : List (List Char) → List (List Char) → Prop
  | same (arguments : List (List Char)) : Varies known o arguments arguments
  /-- The value is the next argument. -/
  | separate {v v' : List Char} {rest rest' : List (List Char)} : Varies known o rest rest' →
    Varies known o (o.name.toList :: v :: rest) (o.name.toList :: v' :: rest')
  /-- The value follows an equals sign. -/
  | attached {v v' : List Char} {rest rest' : List (List Char)} : Varies known o rest rest' →
    Varies known o ((o.name.toList ++ '=' :: v) :: rest) ((o.name.toList ++ '=' :: v') :: rest')
  /-- Another option takes the next argument for its value, also if it looks like the name of this one. -/
  | other {p : Opt} {v : List Char} {rest rest' : List (List Char)} : p ∈ known → p.takesValue = true →
    Varies known o rest rest' → Varies known o (p.name.toList :: v :: rest) (p.name.toList :: v :: rest')
  | single {argument : List Char} {rest rest' : List (List Char)} : argument ≠ optionsEnd →
    (∀ p ∈ known, p.takesValue = true → argument ≠ p.name.toList) →
    Varies known o rest rest' → Varies known o (argument :: rest) (argument :: rest')

namespace Scanned

theorem isSome_value? (s : Scanned) (p : Opt) : (s.value? p).isSome = s.has p := by
  rw [Bool.eq_iff_iff]
  simp [value?, has, List.any_eq_true]

theorem value?_addOption (s : Scanned) (p q : Opt) (v : List Char) :
    (s.addOption p v).value? q = if p = q then some ((s.value? q).getD v) else s.value? q := by
  unfold value? addOption
  by_cases h : p = q
  · rw [if_pos h, List.filter_cons_of_pos (by simpa using h), List.getLast?_cons, Option.map_some]
    cases (s.given.filter (·.option = q)).getLast? <;> rfl
  · rw [if_neg h, List.filter_cons_of_neg (by simpa using h)]

theorem has_addOption (s : Scanned) (p q : Opt) (v : List Char) :
    (s.addOption p v).has q = (decide (p = q) || s.has q) := rfl

/-- Options and arguments are the same, but for the values of one option. -/
structure SameBut (o : Opt) (s s' : Scanned) : Prop where
  rest : s.rest = s'.rest
  value : ∀ p, p ≠ o → s.value? p = s'.value? p
  has : ∀ p, s.has p = s'.has p

variable {o : Opt} {s s' : Scanned}

theorem SameBut.refl (s : Scanned) : SameBut o s s := ⟨rfl, fun _ _ => rfl, fun _ => rfl⟩

theorem SameBut.addRest (h : SameBut o s s') (argument : List Char) :
    SameBut o (s.addRest argument) (s'.addRest argument) :=
  ⟨congrArg (argument :: ·) h.rest, h.value, h.has⟩

theorem SameBut.addOption (h : SameBut o s s') {p : Opt} {v v' : List Char} (hv : p ≠ o → v = v') :
    SameBut o (s.addOption p v) (s'.addOption p v') := by
  refine ⟨h.rest, fun q hq => ?_, fun q => ?_⟩
  · rw [value?_addOption, value?_addOption, h.value q hq]
    by_cases hpq : p = q
    · rw [hv (hpq ▸ hq)]
    · rw [if_neg hpq, if_neg hpq]
  · rw [has_addOption, has_addOption, h.has q]

end Scanned

/-- Arguments that differ in the values of an option only are scanned alike. -/
theorem alike_scan (ho : o ∈ known) (ht : o.takesValue = true) {arguments arguments' : List (List Char)}
    (h : Varies known o arguments arguments') :
    Alike (Scanned.SameBut o) (scan known true arguments) (scan known true arguments') := by
  induction h with
  | same arguments => exact Alike.refl .refl _
  | @separate v v' rest rest' _ ih =>
    rw [scan_separate ho ht, scan_separate ho ht]
    exact ih.map fun s s' hs => hs.addOption fun hne => absurd rfl hne
  | @attached v v' rest rest' _ ih =>
    rw [scan_attached ho ht, scan_attached ho ht]
    exact ih.map fun s s' hs => hs.addOption fun hne => absurd rfl hne
  | other hp htakes _ ih =>
    rw [scan_separate hp htakes, scan_separate hp htakes]
    exact ih.map fun s s' hs => hs.addOption fun _ => rfl
  | @single argument rest rest' hne hname _ ih =>
    rcases scan_single hne hname with ⟨e, he⟩ | hrest | ⟨p, v, -, hoption⟩
    · rw [he, he]
      exact Or.inl ⟨e, rfl, rfl⟩
    · rw [hrest, hrest]
      exact ih.map fun s s' hs => hs.addRest argument
    · rw [hoption, hoption]
      exact ih.map fun s s' hs => hs.addOption fun _ => rfl

/-! ## Values -/

section

variable {s s' : Scanned} (env : Environment)

theorem Scanned.SameBut.required_eq (h : s.SameBut o s') {p : Opt} (hp : p ≠ o) :
    required env s p = required env s' p := by
  unfold required valueOf
  rw [h.value p hp]

theorem Scanned.SameBut.isSome_valueOf (h : s.SameBut o s') :
    (valueOf env s o).isSome = (valueOf env s' o).isSome := by
  have hgiven := h.has o
  rw [← Scanned.isSome_value?, ← Scanned.isSome_value?] at hgiven
  unfold valueOf
  rcases none_or_some hgiven with ⟨hs, hs'⟩ | ⟨v, v', hs, hs'⟩
  · rw [hs, hs']
  · rw [hs, hs']
    rfl

/-- The value of the option itself is had in both cases, or missing in both. -/
theorem alike_required (h : s.SameBut o s') : Alike
    (fun v v' => valueOf env s o = some v ∧ valueOf env s' o = some v') (required env s o) (required env s' o) := by
  unfold required
  rcases none_or_some (h.isSome_valueOf env) with ⟨hv, hv'⟩ | ⟨v, v', hv, hv'⟩
  · rw [hv, hv']
    exact Or.inl ⟨_, rfl, rfl⟩
  · rw [hv, hv']
    exact Or.inr ⟨v, v', rfl, rfl, rfl, rfl⟩

end

end AgentBridge.CommandLine
