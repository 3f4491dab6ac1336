import AgentBridge.Proofs.FloatText
import AgentBridge.Proofs.Leading
import AgentBridge.Proofs.Printing

/-
  AgentBridge.Proofs.Spelling — every text that is written is read as some value.

  The text of a value leads the reader from a state that expects a value to the state behind
  one (`Spells`). What it spells is what was written, except that two surrogates which can be
  joined are joined and that of several members with one key the last is kept (`Value.told`).
  This is shown for every value that was written at all, in any layout, as long as there is
  room for its brackets (`spells_of_writeAt`).
-/

namespace AgentBridge

/-! ## What a text tells -/

mutual

/-- What is read from the text of a value. A foreign part has no text. -/
def Value.told {F : Type} : Value F → Json
  | .null => .null
  | .bool b => .bool b
  | .int n => .int n
  | .float x => .float x
  | .str t => .str t.pair
  | .array items => .array (Value.toldItems items)
  | .object members => .object (Value.toldMembers [] members)
  | .foreign _ => .null

def Value.toldItems {F : Type} : List (Value F) → List Json
  | [] => []
  | v :: rest => v.told :: Value.toldItems rest

/-- What is read from the text of some members, behind others. -/
def Value.toldMembers {F : Type} (before : Members Empty) : List (Text × Value F) → Members Empty
  | [] => before
  | (k, v) :: rest => Value.toldMembers (before.set k.pair v.told) rest

end

namespace Json

/-! ## Layouts -/

theorem isSpace_of_newline {l : Layout} {level : Nat} : ∀ c ∈ l.newline level, isSpace c = true := by
  cases l with
  | oneLine => simp [Layout.newline]
  | indented width =>
    intro c hc
    rcases List.mem_cons.mp hc with rfl | hc
    · decide
    · rw [(List.mem_replicate.mp hc).2]
      decide

theorem ends_newline (l : Layout) (level : Nat) : Ends (l.newline level) := by
  cases l with
  | oneLine => simp [Layout.newline, Ends]
  | indented width => exact ends_cons (by decide) _

/-- What stands between two items is a comma and white space. -/
theorem comma_eq (l : Layout) (level : Nat) :
    ∃ w, l.comma level = ',' :: w ∧ ∀ c ∈ w, isSpace c = true := by
  cases l with
  | oneLine => exact ⟨[' '], rfl, List.forall_mem_singleton.mpr rfl⟩
  | indented width => exact ⟨_, rfl, isSpace_of_newline⟩

/-- Behind the last item stand white space and a closing bracket. -/
theorem ends_closing {c : Char} (hc : isDelimiter c = true) (l : Layout) (level : Nat) :
    Ends (l.newline level ++ [c]) :=
  ends_append (ends_newline l level) (ends_cons hc _)

/-! ## Spelling -/

/-- A text spells a value: from any state that expects a value it leads to the state behind it, as long as
there is room for so many more brackets. -/
def Spells (room : Nat) (text : List Char) (v : Json) : Prop :=
  ∀ s around, s.Expects around → around.length + room ≤ nestingLimit → Leads text s (.afterValue v around)

theorem Spells.read {room : Nat} {text : List Char} {v : Json} (h : Spells room text v) (hr : room ≤ nestingLimit) :
    Json.read text = .ok v :=
  (h (.value []) [] (.value []) (by simpa using hr)).read

theorem spells_scalar {room : Nat} {t : List Char} {v : Json} (h : scanScalar t = some (.ok v, t.length)) :
    Spells room t v := fun _ _ hs _ => .scalar h (.scalar v hs)

theorem spells_text (room : Nat) (t : Text) : Spells room (writeText t) (.str t.pair) := by
  intro s around hs _
  have := Leads.text (.text t.pair hs) (.nil _)
  rwa [List.append_nil] at this

theorem lt_of_writeInteger {n : Int} {t : List Char} (h : writeInteger n = .ok t) : n.natAbs < 10 ^ digitLimit := by
  by_contra hlong
  have hrefused : writeInteger n = .error .tooManyDigits := by
    rw [writeInteger, Nat.pow_eq, if_pos (Nat.not_lt.mp hlong)]
  rw [hrefused] at h
  cases h

variable {F : Type} {s : Style F}

/-- Some items lead from an item to the last of them. -/
def LeadsItems (room : Nat) (text : List Char) (items : List Json) : Prop :=
  ∀ before around, around.length + 1 + room ≤ nestingLimit →
    Leads text (.arrayNext before around) (.arrayNext (items.reverse ++ before) around)

/-- Some members lead from a member to the last of them. -/
def LeadsMembers (room : Nat) (text : List Char) (members : Members Empty → Members Empty) : Prop :=
  ∀ before around, around.length + 1 + room ≤ nestingLimit →
    Leads text (.objectNext before around) (.objectNext (members before) around)

theorem spells_array {room : Nat} {level : Nat} {first others : List Char} {v : Json} {items : List Json}
    (hv : Spells room first v) (hi : LeadsItems room others items) (he : Ends others) :
    Spells (room + 1) ('[' :: s.layout.newline (level + 1) ++ first ++ others ++ s.layout.newline level ++ [']'])
      (.array (v :: items)) := by
  intro st around hs hroom
  have hclose : Leads [']'] (.arrayNext (items.reverse ++ [v]) around) (.afterValue (.array (v :: items)) around) := by
    have := State.Closes.items (items.reverse ++ [v]) around
    rw [List.reverse_append, List.reverse_reverse] at this
    exact .mark rfl (.close this) (.nil _)
  have hends : Ends (s.layout.newline level ++ [']']) := ends_closing (by decide) _ _
  have hitem := hv _ _ (.first around) (by simp only [List.length_cons]; omega)
  have hitems := hi [v] around (by omega)
  simp only [List.append_assoc, List.cons_append]
  exact .mark rfl (.openArray hs (by omega)) (.space isSpace_of_newline
    (.append hitem (.append hitems (.space isSpace_of_newline hclose) hends) (ends_append he hends)))

theorem spells_object {room : Nat} {level : Nat} {first others : List Char} {k : Text} {v : Json}
    {m : Members Empty → Members Empty} (hv : Spells room first v) (hm : LeadsMembers room others m)
    (he : Ends others) :
    Spells (room + 1) ('\x7b' :: s.layout.newline (level + 1) ++ writeText k ++ [':', ' '] ++ first ++ others ++
      s.layout.newline level ++ ['\x7d']) (.object (m [(k.pair, v)])) := by
  intro st around hs hroom
  have hclose : Leads ['\x7d'] (.objectNext (m [(k.pair, v)]) around)
      (.afterValue (.object (m [(k.pair, v)])) around) := .mark rfl (.close (.members _ around)) (.nil _)
  have hends : Ends (s.layout.newline level ++ ['\x7d']) := ends_closing (by decide) _ _
  have hmember := hv (.value (.member [] k.pair :: around)) _ (.value _) (by simp only [List.length_cons]; omega)
  have hmembers := hm [(k.pair, v)] around (by omega)
  simp only [List.append_assoc, List.cons_append, List.nil_append]
  exact .mark rfl (.openObject hs (by omega)) (.space isSpace_of_newline
    (.text (.key k.pair (.first around)) (.mark rfl (.colon [] k.pair around) (.blank
      (.append hmember (.append hmembers (.space isSpace_of_newline hclose) hends) (ends_append he hends))))))

mutual

/-- What was written spells what it tells. -/
theorem spells_of_writeAt {level : Nat} {t : List Char} :
    (v : Value F) → writeAt s level v = .ok t → Spells v.depth t v.told
  | .null | .bool true | .bool false => by
    intro h
    cases h
    exact spells_scalar rfl
  | .int n => by
    intro h
    rw [writeAt] at h
    rw [writeInteger_ok h]
    exact spells_scalar (scanScalar_integerText (lt_of_writeInteger h))
  | .float x => by
    intro h
    rw [writeAt] at h
    rw [writeFloat_ok h]
    exact spells_scalar (Binary64.scanScalar_text x)
  | .str t => by
    intro h
    cases h
    exact spells_text _ t
  | .array [] => by
    intro h
    cases h
    intro st around hs hroom
    have hlt : around.length < nestingLimit := hroom
    exact .mark rfl (.openArray hs hlt) (.mark rfl (.close (.noItems around)) (.nil _))
  | .array (v :: rest) => by
    intro h
    obtain ⟨first, hfirst, h⟩ := bind_eq_ok.mp h
    obtain ⟨others, hothers, h⟩ := bind_eq_ok.mp h
    cases h
    obtain ⟨hends, hitems⟩ := leads_of_writeItems rest hothers
    refine spells_array (fun st around hs hroom => ?_) (fun before around hroom => ?_) hends
    · rw [Value.depthOfItems] at hroom
      exact spells_of_writeAt v hfirst st around hs (by omega)
    · rw [Value.depthOfItems] at hroom
      exact hitems before around (by omega)
  | .object [] => by
    intro h
    cases h
    intro st around hs hroom
    have hlt : around.length < nestingLimit := hroom
    exact .mark rfl (.openObject hs hlt) (.mark rfl (.close (.noMembers around)) (.nil _))
  | .object ((k, v) :: rest) => by
    intro h
    obtain ⟨first, hfirst, h⟩ := bind_eq_ok.mp h
    obtain ⟨others, hothers, h⟩ := bind_eq_ok.mp h
    cases h
    obtain ⟨hends, hmembers⟩ := leads_of_writeMembers rest hothers
    refine spells_object (m := fun before => Value.toldMembers before rest)
      (fun st around hs hroom => ?_) (fun before around hroom => ?_) hends
    · rw [Value.depthOfMembers] at hroom
      exact spells_of_writeAt v hfirst st around hs (by omega)
    · rw [Value.depthOfMembers] at hroom
      exact hmembers before around (by omega)
  | .foreign x => by
    intro h
    cases h

theorem leads_of_writeItems {level : Nat} {t : List Char} :
    (items : List (Value F)) → writeItems s level items = .ok t →
      Ends t ∧ LeadsItems (Value.depthOfItems items) t (Value.toldItems items)
  | [] => by
    intro h
    cases h
    exact ⟨by simp [Ends], fun before around _ => .nil _⟩
  | v :: rest => by
    intro h
    obtain ⟨first, hfirst, h⟩ := bind_eq_ok.mp h
    obtain ⟨others, hothers, h⟩ := bind_eq_ok.mp h
    cases h
    obtain ⟨hends, hitems⟩ := leads_of_writeItems rest hothers
    obtain ⟨w, hcomma, hspace⟩ := comma_eq s.layout level
    rw [hcomma]
    refine ⟨ends_cons (by decide) _, fun before around hroom => ?_⟩
    rw [Value.depthOfItems] at hroom
    have hv := spells_of_writeAt v hfirst _ _ (.value (.array before :: around))
      (by simp only [List.length_cons]; omega)
    rw [List.append_assoc, List.cons_append, Value.toldItems, List.reverse_cons, List.append_assoc,
      List.singleton_append]
    exact .mark rfl (.nextItem before around) (.space hspace
      (.append hv (hitems (v.told :: before) around (by omega)) hends))

theorem leads_of_writeMembers {level : Nat} {t : List Char} :
    (members : List (Text × Value F)) → writeMembers s level members = .ok t →
      Ends t ∧ LeadsMembers (Value.depthOfMembers members) t fun before => Value.toldMembers before members
  | [] => by
    intro h
    cases h
    exact ⟨by simp [Ends], fun before around _ => .nil _⟩
  | (k, v) :: rest => by
    intro h
    obtain ⟨first, hfirst, h⟩ := bind_eq_ok.mp h
    obtain ⟨others, hothers, h⟩ := bind_eq_ok.mp h
    cases h
    obtain ⟨hends, hmembers⟩ := leads_of_writeMembers rest hothers
    obtain ⟨w, hcomma, hspace⟩ := comma_eq s.layout level
    rw [hcomma]
    refine ⟨ends_cons (by decide) _, fun before around hroom => ?_⟩
    rw [Value.depthOfMembers] at hroom
    have hv := spells_of_writeAt v hfirst _ _ (.value (.member before k.pair :: around))
      (by simp only [List.length_cons]; omega)
    simp only [List.append_assoc, List.cons_append, List.nil_append, Value.toldMembers]
    exact .mark rfl (.nextMember before around) (.space hspace
      (.text (.key k.pair (.next before around)) (.mark rfl (.colon before k.pair around)
        (.blank (.append hv (hmembers (Members.set k.pair v.told before) around (by omega)) hends)))))

end

/-- What was written without too many brackets is read as what it tells. -/
theorem read_of_told {v : Value F} {level : Nat} {t : List Char} (h : writeAt s level v = .ok t)
    (hd : v.depth ≤ nestingLimit) : read t = .ok v.told :=
  (spells_of_writeAt v h).read hd

end Json

end AgentBridge
