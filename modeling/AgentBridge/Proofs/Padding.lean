import AgentBridge.Proofs.Streams

/-
  AgentBridge.Proofs.Padding — blanks around what a backend writes.

  A reply is trimmed when its bytes are read already and before anything is looked for in it, so
  blanks around either stream make no difference to the outcome, to the places that an error
  names or to the log (`classify_padded`).

  The error stream may hold anything. No character begins with a byte that goes on with another
  character, so characters behind other bytes end a flaw just where the end of the bytes does
  (`front_flaw_append`), and lenient reading gives them behind what the bytes alone give
  (`decodeLossy_append_encode`).
-/

namespace AgentBridge

/-! ## Characters behind other bytes -/

namespace Utf8

/-- No character begins with a byte that could go on with another one. -/
theorem not_continuation_of_encode {cs : List Char} {b : UInt8} (h : b ∈ (encode cs).head?) :
    b.toNat < 0x80 ∨ 0xBF < b.toNat := by
  cases cs with
  | nil => cases h
  | cons c cs =>
    obtain ⟨first, tail, hc⟩ := List.exists_cons_of_ne_nil (String.utf8EncodeChar_ne_nil (c := c))
    rw [encode_cons, hc] at h
    obtain rfl := Option.some.inj h
    have hfront := front_encode hc []
    unfold front at hfront
    split at hfront
    · exact Or.inl ‹_›
    · split at hfront
      · rename_i l hl
        rcases lead_cases hl with hcase | hcase | hcase
        · omega
        · omega
        · omega
      · cases hfront

/-- Where bytes do not go on as a character, they do not with whole characters behind them, and they stop being one at
the same place. -/
theorem following_flaw_append {more least greatest bits taken : Nat} {bytes : List UInt8} {flaw : Flaw}
    (h : (following more least greatest bits taken bytes).found = .error flaw) (hleast : 0x80 ≤ least)
    (hgreatest : greatest ≤ 0xBF) (cs : List Char) :
    ∃ done behind flaw', bytes = done ++ behind ∧
      (following more least greatest bits taken bytes).size = taken + done.length ∧
      following more least greatest bits taken (bytes ++ encode cs) = ⟨.error flaw', taken + done.length⟩ := by
  induction bytes generalizing more least greatest bits taken with
  | nil =>
    cases more with
    | zero => cases h
    | succ more =>
      rw [List.nil_append]
      cases hcs : encode cs with
      | nil => exact ⟨[], [], .cutShort, rfl, rfl, rfl⟩
      | cons b rest =>
        have hfirst : b ∈ (encode cs).head? := by
          rw [hcs]
          rfl
        have hb := not_continuation_of_encode hfirst
        have hout : ¬ (least ≤ b.toNat ∧ b.toNat ≤ greatest) := by omega
        exact ⟨[], [], .badContinuation, rfl, rfl, if_neg hout⟩
  | cons b rest ih =>
    cases more with
    | zero => cases h
    | succ more =>
      rw [List.cons_append]
      simp only [following] at h ⊢
      split at h
      · rename_i hb
        obtain ⟨done, behind, flaw', hrest, hsize, hall⟩ := ih h (Nat.le_refl _) (Nat.le_refl _)
        have hlength : taken + 1 + done.length = taken + (b :: done).length := by
          rw [List.length_cons]
          omega
        rw [if_pos hb, if_pos hb, hall, hsize, hlength]
        exact ⟨b :: done, behind, flaw', by rw [hrest, List.cons_append], rfl, rfl⟩
      · rename_i hb
        rw [if_neg hb, if_neg hb]
        exact ⟨[], b :: rest, .badContinuation, rfl, rfl, rfl⟩

/-- A flaw stays one and keeps its length with whole characters behind the bytes. -/
theorem front_flaw_append {b : UInt8} {rest : List UInt8} {flaw : Flaw} (h : (front b rest).found = .error flaw)
    (cs : List Char) :
    ∃ done behind flaw', rest = done ++ behind ∧ (front b rest).size = done.length + 1 ∧
      front b (rest ++ encode cs) = ⟨.error flaw', done.length + 1⟩ := by
  unfold front at h ⊢
  split at h
  · cases h
  · rename_i h7
    rw [if_neg h7, if_neg h7]
    cases hl : lead? b.toNat with
    | none => exact ⟨[], rest, .badStart, rfl, rfl, rfl⟩
    | some l =>
      rw [hl] at h
      have hrange : 0x80 ≤ l.least ∧ l.greatest ≤ 0xBF := by
        rcases lead_cases hl with hcase | hcase | hcase
        · omega
        · grind
        · grind
      obtain ⟨done, behind, flaw', hrest, hsize, hall⟩ := following_flaw_append h hrange.1 hrange.2 cs
      rw [Nat.add_comm] at hsize hall
      exact ⟨done, behind, flaw', hrest, hsize, hall⟩

/-- Lenient reading gives the characters that stand behind any bytes. -/
theorem decodeLossy_append_encode (bytes : List UInt8) (cs : List Char) :
    decodeLossy (bytes ++ encode cs) = decodeLossy bytes ++ cs := by
  unfold decodeLossy
  induction hn : bytes.length using Nat.strongRecOn generalizing bytes with
  | ind n ih =>
    cases bytes with
    | nil => exact decodeLossy_encode cs
    | cons b rest =>
      have hshorter : ∀ {done behind : List UInt8}, rest = done ++ behind → behind.length < n := by
        intro done behind hrest
        rw [← hn, hrest, List.length_cons, List.length_append]
        omega
      rw [List.cons_append, lenientFrom, lenientFrom]
      cases hfound : (front b rest).found with
      | ok c =>
        obtain ⟨done, behind, hrest, hsize, hc⟩ := encode_front hfound
        have hfront := front_encode hc (behind ++ encode cs)
        rw [← List.append_assoc, ← hrest] at hfront
        simp only [hfront, hsize, Nat.add_sub_cancel]
        rw [hrest, List.append_assoc, lenientFrom_skip, lenientFrom_skip,
          ih behind.length (hshorter hrest) behind rfl, List.cons_append]
      | error flaw =>
        obtain ⟨done, behind, flaw', hrest, hsize, hfront⟩ := front_flaw_append hfound cs
        simp only [hfront, hsize, Nat.add_sub_cancel]
        rw [hrest, List.append_assoc, lenientFrom_skip, lenientFrom_skip,
          ih behind.length (hshorter hrest) behind rfl, List.cons_append]

end Utf8

/-! ## Replies -/

namespace Reply

/-- What a reply means is decided by its value or error and by the complaint. -/
theorem classify_congr {r r' : Reply} (hresult : r.result = r'.result) (hcomplaint : r.complaint = r'.complaint)
    (action : Text) (debug : Bool) : r.classify action debug = r'.classify action debug := by
  unfold classify remarks
  rw [hresult, hcomplaint]

section

variable {w₁ w₂ w₃ w₄ : List Char} (h₁ : ∀ c ∈ w₁, Blank.isBlank c = true) (h₂ : ∀ c ∈ w₂, Blank.isBlank c = true)
  (h₃ : ∀ c ∈ w₃, Blank.isBlank c = true) (h₄ : ∀ c ∈ w₄, Blank.isBlank c = true)

include h₁ h₂ in
theorem trim_padded (cs : List Char) : Blank.trim (w₁ ++ cs ++ w₂) = Blank.trim cs := by
  rw [Blank.trim_append_blanks h₂, Blank.trim_blanks_append h₁]

include h₃ h₄ in
/-- Blanks around the error stream leave the complaint as it is, whatever bytes stand between them. -/
theorem complaint_padded (out err : List UInt8) (status : Option Int) :
    (Reply.mk out (Utf8.encode w₃ ++ err ++ Utf8.encode w₄) status).complaint = Blank.trim (Utf8.decodeLossy err) := by
  rw [complaint, Utf8.decodeLossy_append_encode, Utf8.decodeLossy_encode_append, trim_padded h₃ h₄]

include h₁ h₂ h₃ h₄ in
theorem classify_padded_bytes (o : List Char) (err : List UInt8) (status : Option Int) (action : Text) (debug : Bool) :
    (Reply.mk (Utf8.encode (w₁ ++ o ++ w₂)) (Utf8.encode w₃ ++ err ++ Utf8.encode w₄) status).classify action debug =
      (Reply.mk (Utf8.encode o) err status).classify action debug := by
  have hcomplaint := complaint_padded h₃ h₄
  have hplain : (Reply.mk (Utf8.encode o) err status).result =
      meaning (Blank.trim o) (Blank.trim (Utf8.decodeLossy err)) status := result_of_encode rfl
  apply classify_congr
  · rw [hplain, result_of_encode rfl, trim_padded h₁ h₂, hcomplaint]
  · exact hcomplaint _ err status

include h₁ h₂ h₃ h₄ in
/-- Blanks around the texts on the two streams change neither the value or the error, with all that its message names,
nor what is logged. They do not either around an error stream that is not well formed. -/
theorem classify_padded (o e : List Char) (status : Option Int) (action : Text) (debug : Bool) :
    (Reply.mk (Utf8.encode (w₁ ++ o ++ w₂)) (Utf8.encode (w₃ ++ e ++ w₄)) status).classify action debug =
      (Reply.mk (Utf8.encode o) (Utf8.encode e) status).classify action debug ∧
    ∀ err : List UInt8,
      (Reply.mk (Utf8.encode (w₁ ++ o ++ w₂)) (Utf8.encode w₃ ++ err ++ Utf8.encode w₄) status).classify action debug =
        (Reply.mk (Utf8.encode o) err status).classify action debug := by
  constructor
  · rw [Utf8.encode_append (w₃ ++ e), Utf8.encode_append w₃]
    exact classify_padded_bytes h₁ h₂ h₃ h₄ o (Utf8.encode e) status action debug
  · intro err
    exact classify_padded_bytes h₁ h₂ h₃ h₄ o err status action debug

end

/-- Blanks of many kinds around a reply that is no JSON: the place in the message is that in the reply. -/
theorem classify_padded_not_json :
    (Reply.mk (Utf8.encode "\u001C\u0085\n\x7b\n,\x7d\u3000".toList) (Utf8.encode "\u2028late\u00A0".toList)
      (some 1)).classify "status" true = (.error (.reported (.notJson .expectingKey ⟨2, 2, 1⟩)), []) := by
  have h₁ : ∀ c ∈ "\u001C\u0085\n".toList, Blank.isBlank c = true := List.all_eq_true.mp (by decide)
  have h₂ : ∀ c ∈ "\u3000".toList, Blank.isBlank c = true := List.all_eq_true.mp (by decide)
  have h₃ : ∀ c ∈ "\u2028".toList, Blank.isBlank c = true := List.all_eq_true.mp (by decide)
  have h₄ : ∀ c ∈ "\u00A0".toList, Blank.isBlank c = true := List.all_eq_true.mp (by decide)
  exact (classify_padded h₁ h₂ h₃ h₄ "\x7b\n,\x7d".toList "late".toList (some 1) "status" true).1.trans rfl

end Reply

end AgentBridge
