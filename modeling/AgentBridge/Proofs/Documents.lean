import AgentBridge.Proofs.Leading
import AgentBridge.Proofs.Tokens

/-
  AgentBridge.Proofs.Documents — the texts that are read, and the values that they denote.

  `Denotes` gives the grammar of JSON texts with a value for every text, and knows no limits. It
  has no more words than the reader, so the standard grammar and the words for numbers that are
  not finite. A text that the reader accepts denotes what it is read as: every step of the
  reader keeps what was read so far in the shape that the grammar asks for (`Reached.step`,
  `Reached.feed`). A text that denotes a value is read as this value unless it exceeds a limit
  (`Phrase.Passes`, by induction on the grammar). Together: `read_eq_ok_iff_denotes`. Every text
  of the standard grammar denotes a value (`Derives.denoted`), so it is read.
-/

namespace AgentBridge

/-! ## Members as they are written -/

namespace Members

variable {F : Type}

/-- The members of an object from how they are written: the last value of a key counts, and its first place. -/
def gather (written : List (Text × Value F)) : Members F :=
  written.foldl (fun m kv => set kv.1 kv.2 m) []

/-- The value that was written last for a key. -/
def last? (key : Text) (written : List (Text × Value F)) : Option (Value F) := get? key written.reverse

theorem gather_append (written : List (Text × Value F)) (key : Text) (v : Value F) :
    gather (written ++ [(key, v)]) = set key v (gather written) := by
  simp [gather]

theorem get?_gather (key : Text) (written : List (Text × Value F)) : get? key (gather written) = last? key written := by
  induction written using List.reverseRecOn with
  | nil => rfl
  | append_singleton written kv ih =>
    obtain ⟨k, v⟩ := kv
    rw [gather_append, get?_set, ih, last?, last?, List.reverse_append]
    by_cases hk : key = k
    · simp [get?, hk]
    · simp [get?, hk, Ne.symm hk]

end Members

namespace Json

/-! ## The grammar -/

/-- What a text can denote, by the place where it stands. -/
inductive Phrase where
  | value (v : Json)
  /-- A value with white space around it. -/
  | element (v : Json)
  /-- Elements with commas between them. -/
  | items (vs : List Json)
  /-- A key with its value, and white space around both. -/
  | member (key : Text) (v : Json)
  /-- Members with commas between them, as they are written. -/
  | members (written : List (Text × Json))

/-- The texts that denote a phrase. -/
inductive Denotes : Phrase → List Char → Prop
  | scalar {v : Json} {t : List Char} : Scalar v t → Denotes (.value v) t
  | text {s : Text} {t : List Char} : Quotes s t → Denotes (.value (.str s)) t
  | noItems {w : List Char} : Space w → Denotes (.value (.array [])) ('[' :: w ++ [']'])
  | array {vs : List Json} {t : List Char} : Denotes (.items vs) t → Denotes (.value (.array vs)) ('[' :: t ++ [']'])
  | noMembers {w : List Char} : Space w → Denotes (.value (.object [])) ('\x7b' :: w ++ ['\x7d'])
  | object {ms : List (Text × Json)} {t : List Char} : Denotes (.members ms) t →
    Denotes (.value (.object (Members.gather ms))) ('\x7b' :: t ++ ['\x7d'])
  | element {v : Json} {w t w' : List Char} : Space w → Denotes (.value v) t → Space w' →
    Denotes (.element v) (w ++ t ++ w')
  | firstItem {v : Json} {t : List Char} : Denotes (.element v) t → Denotes (.items [v]) t
  | nextItem {vs : List Json} {v : Json} {ts t : List Char} : Denotes (.items vs) ts → Denotes (.element v) t →
    Denotes (.items (vs ++ [v])) (ts ++ ',' :: t)
  | member {key : Text} {v : Json} {w k w' t : List Char} : Space w → Quotes key k → Space w' →
    Denotes (.element v) t → Denotes (.member key v) (w ++ k ++ w' ++ ':' :: t)
  | firstMember {key : Text} {v : Json} {t : List Char} : Denotes (.member key v) t → Denotes (.members [(key, v)]) t
  | nextMember {ms : List (Text × Json)} {key : Text} {v : Json} {ts t : List Char} : Denotes (.members ms) ts →
    Denotes (.member key v) t → Denotes (.members (ms ++ [(key, v)])) (ts ++ ',' :: t)

namespace Denotes

variable {t w : List Char}

/-- White space may follow an element, and what ends with one. -/
theorem element_append {v : Json} (h : Denotes (.element v) t) (hw : Space w) : Denotes (.element v) (t ++ w) := by
  cases h with
  | element hbefore hv hbehind =>
    rw [List.append_assoc]
    exact .element hbefore hv (space_append hbehind hw)

theorem items_append {vs : List Json} (h : Denotes (.items vs) t) (hw : Space w) : Denotes (.items vs) (t ++ w) := by
  cases h with
  | firstItem he => exact .firstItem (he.element_append hw)
  | nextItem hs he =>
    rw [List.append_assoc, List.cons_append]
    exact .nextItem hs (he.element_append hw)

theorem member_append {key : Text} {v : Json} (h : Denotes (.member key v) t) (hw : Space w) :
    Denotes (.member key v) (t ++ w) := by
  cases h with
  | member hbefore hk hbehind he =>
    rw [List.append_assoc, List.cons_append]
    exact .member hbefore hk hbehind (he.element_append hw)

theorem members_append {ms : List (Text × Json)} (h : Denotes (.members ms) t) (hw : Space w) :
    Denotes (.members ms) (t ++ w) := by
  cases h with
  | firstMember hm => exact .firstMember (hm.member_append hw)
  | nextMember hs hm =>
    rw [List.append_assoc, List.cons_append]
    exact .nextMember hs (hm.member_append hw)

end Denotes

/-! ## What was read so far -/

/-- The text that was read when the reader is in a state. -/
inductive Reached : State → List Char → Prop
  | start {w : List Char} : Space w → Reached (.value []) w
  | arrayStart {around : List Frame} {t w : List Char} : Reached (.value around) t → Space w →
    Reached (.arrayStart around) (t ++ '[' :: w)
  | arrayNext {around : List Frame} {items : List Json} {t ts : List Char} : Reached (.value around) t →
    Denotes (.items items.reverse) ts → Reached (.arrayNext items around) (t ++ '[' :: ts)
  | firstItem {around : List Frame} {t : List Char} : Reached (.arrayStart around) t →
    Reached (.value (.array [] :: around)) t
  | nextItem {around : List Frame} {items : List Json} {t w : List Char} : Reached (.arrayNext items around) t →
    Space w → Reached (.value (.array items :: around)) (t ++ ',' :: w)
  | objectStart {around : List Frame} {t w : List Char} : Reached (.value around) t → Space w →
    Reached (.objectStart around) (t ++ '\x7b' :: w)
  | objectNext {around : List Frame} {members ms : List (Text × Json)} {t ts : List Char} : Reached (.value around) t →
    Denotes (.members ms) ts → members = Members.gather ms → Reached (.objectNext members around) (t ++ '\x7b' :: ts)
  | objectKey {around : List Frame} {members : List (Text × Json)} {t w : List Char} :
    Reached (.objectNext members around) t → Space w → Reached (.objectKey members around) (t ++ ',' :: w)
  | objectColon {s : State} {around : List Frame} {members : List (Text × Json)} {key : Text} {t k w : List Char} :
    Reached s t → s.ExpectsKey members around → Quotes key k → Space w →
    Reached (.objectColon members key around) (t ++ k ++ w)
  | memberValue {around : List Frame} {members : List (Text × Json)} {key : Text} {t w : List Char} :
    Reached (.objectColon members key around) t → Space w →
    Reached (.value (.member members key :: around)) (t ++ ':' :: w)
  | done {v : Json} {t : List Char} : Denotes (.element v) t → Reached (.done v) t

namespace Reached

variable {s s' : State} {around : List Frame} {t : List Char}

theorem append {w : List Char} (h : Reached s t) (hw : Space w) : Reached s (t ++ w) := by
  cases h with
  | start h => exact .start (space_append h hw)
  | arrayStart h hs =>
    rw [List.append_assoc]
    exact .arrayStart h (space_append hs hw)
  | arrayNext h hs =>
    rw [List.append_assoc]
    exact .arrayNext h (hs.items_append hw)
  | firstItem h =>
    cases h with
    | arrayStart h hs =>
      rw [List.append_assoc]
      exact .firstItem (.arrayStart h (space_append hs hw))
  | nextItem h hs =>
    rw [List.append_assoc]
    exact .nextItem h (space_append hs hw)
  | objectStart h hs =>
    rw [List.append_assoc]
    exact .objectStart h (space_append hs hw)
  | objectNext h hs hm =>
    rw [List.append_assoc]
    exact .objectNext h (hs.members_append hw) hm
  | objectKey h hs =>
    rw [List.append_assoc]
    exact .objectKey h (space_append hs hw)
  | objectColon h he hk hs =>
    rw [List.append_assoc]
    exact .objectColon h he hk (space_append hs hw)
  | memberValue h hs =>
    rw [List.append_assoc]
    exact .memberValue h (space_append hs hw)
  | done h => exact .done (h.element_append hw)

/-- A member behind what was read of an object. -/
theorem next_member {members : List (Text × Json)} {key : Text} {v : Json} {k w e : List Char} (h : Reached s t)
    (hs : s.ExpectsKey members around) (hk : Quotes key k) (hw : Space w) (he : Denotes (.element v) e) :
    Reached (.objectNext (Members.set key v members) around) (t ++ k ++ w ++ ':' :: e) := by
  cases hs with
  | first =>
    cases h with
    | @objectStart _ outer w' h hw' =>
      have hm := Denotes.firstMember (.member hw' hk hw he)
      have := Reached.objectNext h hm rfl
      simpa [Members.gather, Members.set] using this
  | next =>
    cases h with
    | @objectKey _ _ t w' h hw' =>
      cases h with
      | @objectNext _ _ ms outer ts h hms hgather =>
        have hm := Denotes.nextMember hms (.member hw' hk hw he)
        have := Reached.objectNext h hm rfl
        rw [Members.gather_append, ← hgather] at this
        simpa using this

/-- Where a value is expected, the brackets around it are open. -/
theorem opened (h : Reached s t) (hs : s.Expects around) : Reached (.value around) t := by
  cases hs with
  | value => exact h
  | first => exact .firstItem h

/-- A value where one is expected. -/
theorem afterValue {v : Json} {x : List Char} (h : Reached (.value around) t) (hv : Denotes (.value v) x) :
    Reached (.afterValue v around) (t ++ x) := by
  have helement : ∀ {w : List Char}, Space w → Denotes (.element v) (w ++ x) := by
    intro w hw
    have := Denotes.element hw hv space_nil
    rwa [List.append_nil] at this
  cases h with
  | start hw => exact .done (helement hw)
  | firstItem h =>
    cases h with
    | arrayStart h hw =>
      rw [List.append_assoc]
      exact .arrayNext h (.firstItem (helement hw))
  | nextItem h hw =>
    cases h with
    | arrayNext h hitems =>
      have := Denotes.nextItem hitems (helement hw)
      rw [← List.reverse_cons] at this
      simpa [State.afterValue] using Reached.arrayNext h this
  | memberValue h hw =>
    cases h with
    | objectColon h hs hk hw' =>
      rw [List.append_assoc]
      exact h.next_member hs hk hw' (helement hw)

/-- A bracket that completes a value. -/
theorem closed {b : Bracket} {v : Json} {x : List Char} (h : Reached s t) (hs : s.Closes b v around)
    (hx : Spelled (.closing b) x) : Reached (.afterValue v around) (t ++ x) := by
  cases hs with
  | noItems =>
    cases hx
    cases h with
    | arrayStart h hw =>
      rw [List.append_assoc]
      exact h.afterValue (.noItems hw)
  | items =>
    cases hx
    cases h with
    | arrayNext h hitems =>
      rw [List.append_assoc]
      exact h.afterValue (.array hitems)
  | noMembers =>
    cases hx
    cases h with
    | objectStart h hw =>
      rw [List.append_assoc]
      exact h.afterValue (.noMembers hw)
  | members =>
    cases hx
    cases h with
    | objectNext h hms hgather =>
      rw [List.append_assoc, hgather]
      exact h.afterValue (.object hms)

/-- Every step of the reader keeps what was read in the shape of the grammar. -/
theorem step {token : Token} {x : List Char} (h : Reached s t) (hstep : State.Step s token s') (hx : Spelled token x) :
    Reached s' (t ++ x) := by
  cases hstep with
  | scalar v hs =>
    cases hx with
    | scalar hv => exact (h.opened hs).afterValue (.scalar hv)
  | text u hs =>
    cases hx with
    | text hq => exact (h.opened hs).afterValue (.text hq)
  | openArray hs _ =>
    cases hx
    exact .arrayStart (h.opened hs) space_nil
  | openObject hs _ =>
    cases hx
    exact .objectStart (h.opened hs) space_nil
  | close hs => exact h.closed hs hx
  | nextItem items around =>
    cases hx
    exact .nextItem h space_nil
  | nextMember members around =>
    cases hx
    exact .objectKey h space_nil
  | key u hs =>
    cases hx with
    | text hq =>
      have := Reached.objectColon h hs hq space_nil
      rwa [List.append_nil] at this
  | colon members key around =>
    cases hx
    exact .memberValue h space_nil

/-- What the reader goes through is in the shape of the grammar. -/
theorem feed {pos : Nat} {cs : List Char} (h : Reached s t) (hfeed : s.feed (lexemesFrom 0 pos cs) = .ok s') :
    Reached s' (t ++ cs) := by
  induction hn : cs.length using Nat.strongRecOn generalizing s t pos cs with
  | ind n ih =>
    cases cs with
    | nil =>
      cases hfeed
      rwa [List.append_nil]
    | cons c rest =>
      rw [List.length_cons] at hn
      by_cases hc : isSpace c = true
      · rw [lexemesFrom, if_pos hc] at hfeed
        have hspace : Space [c] := space_of_isSpace (List.forall_mem_singleton.mpr hc)
        have := ih rest.length (by omega) (h.append hspace) hfeed rfl
        rwa [List.append_assoc] at this
      · obtain ⟨token, ls, hls, huse⟩ := lexemesFrom_spelled pos rest (by simpa using hc)
        rw [hls, State.feed] at hfeed
        obtain ⟨s₁, htake, hfeed⟩ := bind_eq_ok.mp hfeed
        have hstep : State.Step s token s₁ := State.take_ok htake
        rcases huse with hnone | ⟨text, behind, htext, hne, hspelled, rfl⟩
        · exact absurd hstep (hnone s s₁)
        · have hshorter : behind.length < n := by
            have hlength := congrArg List.length htext
            rw [List.length_cons, List.length_append] at hlength
            have hpos := List.length_pos_iff.mpr hne
            omega
          have := ih behind.length hshorter (h.step hstep hspelled) hfeed rfl
          rwa [List.append_assoc, ← htext] at this

end Reached

/-- What the reader accepts denotes what it is read as. -/
theorem denotes_of_read {cs : List Char} {v : Json} (h : read cs = .ok v) : Denotes (.element v) cs := by
  obtain ⟨-, hfeed⟩ := read_eq_ok_iff.mp h
  have hreached := (Reached.start space_nil).feed hfeed
  rw [List.nil_append] at hreached
  cases hreached with
  | done hv => exact hv

/-! ## What denotes a value is read -/

/-- In front of a delimiter, the lexemes of a text lead from one state of the reader to another, or exceed a limit. -/
def Passes (text : List Char) (s s' : State) : Prop :=
  ∀ pos rest, Ends rest → ∃ ls,
    lexemesFrom 0 pos (text ++ rest) = ls ++ lexemesFrom 0 (pos + text.length) rest ∧
      (s.feed ls = .ok s' ∨ ∃ l, s.feed ls = .error (.limit l))

theorem isSpace_of_space {w : List Char} (h : Space w) : ∀ c ∈ w, isSpace c = true := by
  intro c hc
  have hmem := h c hc
  simp only [List.mem_cons, List.not_mem_nil, or_false] at hmem
  rcases hmem with rfl | rfl | rfl | rfl
  all_goals rfl

theorem ends_space {w : List Char} (h : Space w) : Ends w := by
  intro c hc
  simp [isDelimiter, isSpace_of_space h c (List.mem_of_mem_head? hc)]

namespace Passes

variable {a b : List Char} {s s' s'' : State}

theorem append (ha : Passes a s s') (hb : Passes b s' s'') (he : Ends b) : Passes (a ++ b) s s'' := by
  intro pos rest hr
  obtain ⟨la, hla, hfa⟩ := ha pos (b ++ rest) (ends_append he hr)
  obtain ⟨lb, hlb, hfb⟩ := hb (pos + a.length) rest hr
  refine ⟨la ++ lb, ?_, ?_⟩
  · rw [List.append_assoc, hla, hlb, List.append_assoc, List.length_append, Nat.add_assoc]
  · rw [State.feed_append]
    rcases hfa with hfa | ⟨l, hfa⟩
    · rw [hfa]
      exact hfb
    · rw [hfa]
      exact Or.inr ⟨l, rfl⟩

theorem nil (s : State) : Passes [] s s := fun _ _ _ => ⟨[], rfl, Or.inl rfl⟩

theorem space {w : List Char} (hw : Space w) (hb : Passes b s s') : Passes (w ++ b) s s' := by
  intro pos rest hr
  obtain ⟨lb, hlb, hfb⟩ := hb (pos + w.length) rest hr
  refine ⟨lb, ?_, hfb⟩
  rw [List.append_assoc, lexemesFrom_space (isSpace_of_space hw), hlb, List.length_append, Nat.add_assoc]

theorem spaces {w : List Char} (hw : Space w) (s : State) : Passes w s s := by
  have := space hw (nil s)
  rwa [List.append_nil] at this

/-- One token that is taken or exceeds a limit, and what follows it. -/
theorem lexeme {t : Token} {x : List Char} (hx : Spelled t x)
    (ht : ∀ pos, s.take ⟨t, pos⟩ = .ok s' ∨ ∃ l, s.take ⟨t, pos⟩ = .error (.limit l))
    (hs : ∀ v, t = .scalar (.ok v) → Ends b ∧ ∃ around, s.Expects around) (hb : Passes b s' s'') :
    Passes (x ++ b) s s'' := by
  intro pos rest hr
  obtain ⟨lb, hlb, hfb⟩ := hb (pos + x.length) rest hr
  obtain ⟨t', hls, ht'⟩ := hx.lexemesFrom pos fun v hv => ends_append (hs v hv).1 hr
  refine ⟨⟨t', pos⟩ :: lb, ?_, ?_⟩
  · rw [List.append_assoc, hls, hlb, List.cons_append, List.length_append, Nat.add_assoc]
  · rw [State.feed]
    rcases ht' with rfl | ⟨v, l, hv, rfl⟩
    · rcases ht pos with htake | ⟨l, htake⟩
      · rw [htake]
        exact hfb
      · rw [htake]
        exact Or.inr ⟨l, rfl⟩
    · obtain ⟨-, around, hexpects⟩ := hs v hv
      rw [State.take_eq_limit_iff.mpr ⟨around, hexpects, Or.inl rfl⟩]
      exact Or.inr ⟨l, rfl⟩

/-- A mark or a string, and what follows it. -/
theorem token {t : Token} {x : List Char} (hx : Spelled t x) (hstep : State.Step s t s')
    (ht : ∀ v, t ≠ .scalar v) (hb : Passes b s' s'') : Passes (x ++ b) s s'' :=
  lexeme hx (fun _ => Or.inl (State.take_of_step hstep)) (fun _ hv => absurd hv (ht _)) hb

theorem scalar {v : Json} {x : List Char} {around : List Frame} (hv : Scalar v x) (hs : s.Expects around) :
    Passes x s (.afterValue v around) := by
  have := lexeme (.scalar hv) (fun _ => Or.inl (State.take_of_step (.scalar v hs)))
    (fun _ _ => ⟨by simp [Ends], around, hs⟩) (nil _)
  rwa [List.append_nil] at this

/-- An array is opened unless it stands too deep. -/
theorem openArray {around : List Frame} (hs : s.Expects around) (hb : Passes b (.arrayStart around) s'') :
    Passes ('[' :: b) s s'' := by
  refine lexeme .openArray (fun pos => ?_) (fun _ h => nomatch h) hb
  by_cases hdeep : around.length < nestingLimit
  · exact Or.inl (State.take_of_step (.openArray hs hdeep))
  · exact Or.inr ⟨_, State.take_eq_limit_iff.mpr ⟨around, hs, Or.inr ⟨_, rfl, not_lt.mp hdeep, rfl⟩⟩⟩

theorem openObject {around : List Frame} (hs : s.Expects around) (hb : Passes b (.objectStart around) s'') :
    Passes ('\x7b' :: b) s s'' := by
  refine lexeme .openObject (fun pos => ?_) (fun _ h => nomatch h) hb
  by_cases hdeep : around.length < nestingLimit
  · exact Or.inl (State.take_of_step (.openObject hs hdeep))
  · exact Or.inr ⟨_, State.take_eq_limit_iff.mpr ⟨around, hs, Or.inr ⟨_, rfl, not_lt.mp hdeep, rfl⟩⟩⟩

/-- A bracket is closed at the end of a text. -/
theorem close {c : Char} {brk : Bracket} {v : Json} {around : List Frame} (ha : Passes a s s')
    (hc : Spelled (.closing brk) [c]) (hs : s'.Closes brk v around) : Passes (a ++ [c]) s (.afterValue v around) := by
  refine ha.append ?_ ?_
  · exact token hc (.close hs) (fun _ h => nomatch h) (nil _)
  · cases hc
    all_goals exact ends_cons (by decide) []

end Passes

/-- What a text that denotes a phrase does to the reader. -/
def Phrase.Passes : Phrase → List Char → Prop
  | .value v, t | .element v, t => ∀ {s around}, s.Expects around → Json.Passes t s (.afterValue v around)
  | .items vs, t => ∀ around, Json.Passes t (.arrayStart around) (.arrayNext vs.reverse around)
  | .member key v, t => ∀ {s members around}, s.ExpectsKey members around →
    Json.Passes t s (.objectNext (Members.set key v members) around)
  | .members ms, t => ∀ around, Json.Passes t (.objectStart around) (.objectNext (Members.gather ms) around)

theorem Denotes.passes {p : Phrase} {t : List Char} (h : Denotes p t) : p.Passes t := by
  induction h with
  | scalar hv => exact fun hs => .scalar hv hs
  | text hq =>
    intro s around hs
    have := Passes.token (.text hq) (.text _ hs) (fun _ h => nomatch h) (.nil _)
    rwa [List.append_nil] at this
  | noItems hw =>
    intro s around hs
    exact .openArray hs ((Passes.spaces hw _).close .closeArray (.noItems around))
  | array _ ih =>
    intro s around hs
    have hclose := (ih around).close .closeArray (.items _ around)
    rw [List.reverse_reverse] at hclose
    exact .openArray hs hclose
  | noMembers hw =>
    intro s around hs
    exact .openObject hs ((Passes.spaces hw _).close .closeObject (.noMembers around))
  | object _ ih =>
    intro s around hs
    exact .openObject hs ((ih around).close .closeObject (.members _ around))
  | element hw _ hw' ih =>
    intro s around hs
    rw [List.append_assoc]
    exact .space hw ((ih hs).append (.spaces hw' _) (ends_space hw'))
  | firstItem _ ih => exact fun around => ih (.first around)
  | @nextItem vs v ts t _ _ ihs ih =>
    intro around
    have hcomma := Passes.token .comma (.nextItem vs.reverse around) (fun _ h => nomatch h) (ih (.value _))
    have := (ihs around).append hcomma (ends_cons (by decide) _)
    rwa [State.afterValue, ← List.reverse_concat] at this
  | @member key v w k w' t hw hk hw' _ ih =>
    intro s members around hs
    have hcolon := Passes.token .colon (.colon members key around) (fun _ h => nomatch h) (ih (.value _))
    have hkey := Passes.token (.text hk) (.key _ hs) (fun _ h => nomatch h) (.space hw' hcolon)
    have := Passes.space hw hkey
    rwa [State.afterValue, ← List.append_assoc, ← List.append_assoc] at this
  | firstMember _ ih => exact fun around => ih (.first around)
  | @nextMember ms key v ts t _ _ ihs ih =>
    intro around
    have hcomma := Passes.token .comma (.nextMember (Members.gather ms) around) (fun _ h => nomatch h)
      (ih (.next _ around))
    have := (ihs around).append hcomma (ends_cons (by decide) _)
    rwa [← Members.gather_append] at this

/-- A text that denotes a value is read as this value, unless it exceeds a limit. -/
theorem Denotes.read {cs : List Char} {v : Json} (h : Denotes (.element v) cs) :
    Json.read cs = .ok v ∨ ∃ l, Exceeds cs l := by
  have hpasses : Passes cs (.value []) (.done v) := h.passes (.value [])
  obtain ⟨ls, hls, hfeed⟩ := hpasses 0 [] (by simp [Ends])
  have hlexemes : lexemes cs = ls := by simpa [lexemes, lexemesFrom] using hls
  rw [← hlexemes] at hfeed
  have hmark : cs.head? ≠ some '\uFEFF' := by
    intro hmark
    rw [lexemes_byteOrderMark hmark] at hfeed
    rcases hfeed with hfeed | ⟨l, hfeed⟩
    · cases hfeed
    · cases hfeed
  rcases hfeed with hfeed | ⟨l, hfeed⟩
  · exact Or.inl (read_eq_ok_iff.mpr ⟨hmark, hfeed⟩)
  · refine Or.inr ⟨l, read_eq_limit_iff.mp ?_⟩
    have hrun := State.run_append cs.length (.value []) (lexemes cs) []
    rw [List.append_nil, hfeed] at hrun
    rw [Json.read, scan, if_neg hmark, hrun]
    rfl

/-- Within the limits, the texts that are read as a value are those that denote it. -/
theorem read_eq_ok_iff_denotes {cs : List Char} {v : Json} (hlimits : ∀ l, ¬ Exceeds cs l) :
    Json.read cs = .ok v ↔ Denotes (.element v) cs := by
  constructor
  · exact denotes_of_read
  · intro h
    rcases h.read with hread | ⟨l, hl⟩
    · exact hread
    · exact absurd hl (hlimits l)

/-! ## Standard texts -/

theorem exists_inside {inner : List Char} (h : Pieces inner) : ∃ t, Inside t inner := by
  induction h with
  | nil => exact ⟨[], .nil⟩
  | cons hp _ ih =>
    obtain ⟨t, ht⟩ := ih
    cases hp with
    | char hc hq hb => exact ⟨_, .char hc hq hb ht⟩
    | @letter c hc =>
      have hletter : ∃ x, unescape? c = some x := by
        simp only [List.mem_cons, List.not_mem_nil, or_false] at hc
        rcases hc with rfl | rfl | rfl | rfl | rfl | rfl | rfl | rfl
        all_goals exact ⟨_, rfl⟩
      obtain ⟨x, hx⟩ := hletter
      exact ⟨_, .letter hx ht⟩
    | @unit ds hlength hdigits =>
      obtain ⟨a, b, c, d, rfl⟩ := List.length_eq_four.mp hlength
      simp only [List.forall_mem_cons, Option.isSome_iff_exists] at hdigits
      obtain ⟨⟨a', ha⟩, ⟨b', hb⟩, ⟨c', hc⟩, ⟨d', hd⟩, -⟩ := hdigits
      have hfour : ∃ n, Hex.four? a b c d = some n := by
        simp only [Hex.four?, ha, hb, hc, hd]
        exact ⟨_, rfl⟩
      obtain ⟨n, hn⟩ := hfour
      exact ⟨_, .unit hn ht⟩

theorem exists_quotes {t : List Char} (h : Quoted t) : ∃ text, Quotes text t := by
  cases h with
  | intro hp =>
    obtain ⟨text, hi⟩ := exists_inside hp
    exact ⟨_, .intro hi⟩

theorem exists_number {t : List Char} (h : Numeral t) : ∃ v, Number v t := by
  cases h with
  | @intro sign whole fraction exponent hs hw hf he =>
    simp only [List.mem_cons, List.not_mem_nil, or_false] at hs
    rw [List.append_assoc, List.append_assoc]
    rcases hs with rfl | rfl
    · rw [List.nil_append]
      exact ⟨_, .plain hw hf he⟩
    · rw [List.cons_append, List.nil_append]
      exact ⟨_, .minus hw hf he⟩

/-- An item may stand in front of others. -/
theorem Denotes.items_cons {v : Json} {vs : List Json} {t ts : List Char} (he : Denotes (.element v) t)
    (h : Denotes (.items vs) ts) : Denotes (.items (v :: vs)) (t ++ ',' :: ts) := by
  generalize hp : Phrase.items vs = p at h
  induction h generalizing vs with
  | firstItem he' =>
    cases hp
    exact .nextItem (.firstItem he) he'
  | nextItem _ he' ih =>
    cases hp
    have := Denotes.nextItem (ih rfl) he'
    rwa [List.append_assoc, List.cons_append] at this
  | _ => cases hp

theorem Denotes.members_cons {key : Text} {v : Json} {ms : List (Text × Json)} {t ts : List Char}
    (hm : Denotes (.member key v) t) (h : Denotes (.members ms) ts) :
    Denotes (.members ((key, v) :: ms)) (t ++ ',' :: ts) := by
  generalize hp : Phrase.members ms = p at h
  induction h generalizing ms with
  | firstMember hm' =>
    cases hp
    exact .nextMember (.firstMember hm) hm'
  | nextMember _ hm' ih =>
    cases hp
    have := Denotes.nextMember (ih rfl) hm'
    rwa [List.append_assoc, List.cons_append] at this
  | _ => cases hp

/-- A text denotes a phrase of the kind that a symbol stands for. -/
def Symbol.Denoted : Symbol → List Char → Prop
  | .value, t => ∃ v, Denotes (.value v) t
  | .element, t => ∃ v, Denotes (.element v) t
  | .elements, t => ∃ vs, Denotes (.items vs) t
  | .member, t => ∃ key v, Denotes (.member key v) t
  | .members, t => ∃ ms, Denotes (.members ms) t

theorem Derives.denoted {s : Symbol} {t : List Char} (h : Derives s t) : s.Denoted t := by
  induction h with
  | word ht =>
    simp only [plainWords, List.mem_cons, List.not_mem_nil, or_false] at ht
    rcases ht with rfl | rfl | rfl
    · exact ⟨.null, .scalar (Or.inl (by simp [words]))⟩
    · exact ⟨.bool true, .scalar (Or.inl (by simp [words]))⟩
    · exact ⟨.bool false, .scalar (Or.inl (by simp [words]))⟩
  | numeral hn =>
    obtain ⟨v, hv⟩ := exists_number hn
    exact ⟨v, .scalar (Or.inr hv)⟩
  | quoted hq =>
    obtain ⟨text, htext⟩ := exists_quotes hq
    exact ⟨_, .text htext⟩
  | noElements hw => exact ⟨_, .noItems hw⟩
  | array _ ih =>
    obtain ⟨vs, hvs⟩ := ih
    exact ⟨_, .array hvs⟩
  | noMembers hw => exact ⟨_, .noMembers hw⟩
  | object _ ih =>
    obtain ⟨ms, hms⟩ := ih
    exact ⟨_, .object hms⟩
  | element hw _ hw' ih =>
    obtain ⟨v, hv⟩ := ih
    exact ⟨v, .element hw hv hw'⟩
  | lastElement _ ih =>
    obtain ⟨v, hv⟩ := ih
    exact ⟨_, .firstItem hv⟩
  | moreElements _ _ ih ihs =>
    obtain ⟨v, hv⟩ := ih
    obtain ⟨vs, hvs⟩ := ihs
    exact ⟨_, hv.items_cons hvs⟩
  | member hw hk hw' _ ih =>
    obtain ⟨key, hkey⟩ := exists_quotes hk
    obtain ⟨v, hv⟩ := ih
    exact ⟨key, v, .member hw hkey hw' hv⟩
  | lastMember _ ih =>
    obtain ⟨key, v, hm⟩ := ih
    exact ⟨_, .firstMember hm⟩
  | moreMembers _ _ ih ihs =>
    obtain ⟨key, v, hm⟩ := ih
    obtain ⟨ms, hms⟩ := ihs
    exact ⟨_, hm.members_cons hms⟩

/-- Within the limits of the reader, every standard text is read. -/
theorem Standard.exists_read {cs : List Char} (h : Standard cs) (hlimits : ∀ l, ¬ Exceeds cs l) :
    ∃ v, Json.read cs = .ok v := by
  obtain ⟨v, hv⟩ := h.denoted
  exact ⟨v, (read_eq_ok_iff_denotes hlimits).mpr hv⟩

end Json

end AgentBridge
