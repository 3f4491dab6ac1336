import AgentBridge.Proofs.Influence

/-
  AgentBridge.Proofs.Streams — strict and lenient reading of a stream agree.

  Every byte string is characters, and behind them nothing or a flaw (`exists_parts`). Both
  readers take the characters as they are. At the flaw the strict one stops and names the place
  (`decode?_of_flaw`), behind the longest part that is well formed (`start_of_decode?`); the
  lenient one puts U+FFFD there and goes on (`mem_decodeLossy_of_flaw`). For replies this means: the
  output stream is refused exactly if it is not well formed, and a well-formed stream is read as
  the same text on either side (`streams_agree`).
-/

namespace AgentBridge

namespace Utf8

/-- Bytes are well formed: they encode characters. -/
def WellFormed (bytes : List UInt8) : Prop := ∃ cs, bytes = encode cs

/-- What a byte string is: characters, and behind them nothing or a flaw. -/
inductive Parts : List UInt8 → Prop
  | whole (cs : List Char) : Parts (encode cs)
  | flawed (cs : List Char) {b : UInt8} {rest : List UInt8} {flaw : Flaw} :
    (front b rest).found = .error flaw → Parts (encode cs ++ b :: rest)

theorem exists_parts (bytes : List UInt8) : Parts bytes := by
  induction hn : bytes.length using Nat.strongRecOn generalizing bytes with
  | ind n ih =>
    cases bytes with
    | nil => exact .whole []
    | cons b rest =>
      cases hfront : (front b rest).found with
      | error flaw => exact .flawed [] hfront
      | ok c =>
        obtain ⟨tail, behind, rfl, -, hc⟩ := encode_front hfront
        have hshorter : behind.length < n := by
          rw [← hn, List.length_cons, List.length_append]
          omega
        have hsame : b :: (tail ++ behind) = encode [c] ++ behind := by
          rw [encode_cons, hc, encode, List.flatMap_nil, List.append_nil, List.cons_append]
        rw [hsame]
        cases ih behind.length hshorter behind rfl with
        | whole cs =>
          rw [← encode_append]
          exact .whole _
        | flawed cs hflaw =>
          rw [← List.append_assoc, ← encode_append]
          exact .flawed _ hflaw

/-! ## Reading strictly -/

theorem decode?_of_flaw {cs : List Char} {b : UInt8} {rest : List UInt8} {flaw : Flaw}
    (h : (front b rest).found = .error flaw) :
    decode? (encode cs ++ b :: rest) = .error ⟨flaw, (encode cs).length, (front b rest).size, b⟩ := by
  rw [decode?, strictFrom_encode_append, strictFrom, Nat.zero_add]
  simp only [h]
  rfl

/-- A fault is not in front of where reading started. -/
theorem le_start {skip pos : Nat} {bytes : List UInt8} {f : Fault} (h : strictFrom skip pos bytes = .error f) :
    pos ≤ f.start := by
  induction bytes generalizing skip pos with
  | nil => cases skip <;> cases h
  | cons b rest ih =>
    cases skip with
    | succ skip => exact Nat.le_of_succ_le (ih h)
    | zero =>
      simp only [strictFrom] at h
      split at h
      · cases hrest : strictFrom ((front b rest).size - 1) (pos + 1) rest with
        | ok cs =>
          rw [hrest] at h
          cases h
        | error g =>
          rw [hrest] at h
          cases h
          exact Nat.le_of_succ_le (ih hrest)
      · cases h
        exact Nat.le_refl pos

/-- A number of bytes is that of the longest part in front that is well formed. -/
def Longest (bytes : List UInt8) (n : Nat) : Prop :=
  (∃ part, part <+: bytes ∧ WellFormed part ∧ part.length = n) ∧
    ∀ part, part <+: bytes → WellFormed part → part.length ≤ n

/-- The fault that is named stands behind the longest part that is well formed. -/
theorem start_of_decode? {bytes : List UInt8} {f : Fault} (h : decode? bytes = .error f) : Longest bytes f.start := by
  have hlongest : ∀ part, part <+: bytes → WellFormed part → part.length ≤ f.start := by
    intro part hpart hformed
    obtain ⟨behind, rfl⟩ := hpart
    obtain ⟨cs, rfl⟩ := hformed
    rw [decode?, strictFrom_encode_append, Nat.zero_add] at h
    cases hbehind : strictFrom 0 (encode cs).length behind with
    | ok more =>
      rw [hbehind] at h
      cases h
    | error g =>
      rw [hbehind] at h
      cases h
      exact le_start hbehind
  refine ⟨?_, hlongest⟩
  cases exists_parts bytes with
  | whole cs =>
    rw [decode?_eq_ok_iff.mpr rfl] at h
    cases h
  | flawed cs hflaw =>
    rw [decode?_of_flaw hflaw] at h
    cases h
    exact ⟨encode cs, List.prefix_append _ _, ⟨cs, rfl⟩, rfl⟩

/-- Strict reading fails on what is not well formed, and on nothing else. -/
theorem exists_fault_iff {bytes : List UInt8} : (∃ f, decode? bytes = .error f) ↔ ¬ WellFormed bytes := by
  constructor
  · intro h hformed
    obtain ⟨f, hf⟩ := h
    obtain ⟨cs, rfl⟩ := hformed
    rw [decode?_eq_ok_iff.mpr rfl] at hf
    cases hf
  · intro h
    cases hread : decode? bytes with
    | ok cs => exact absurd ⟨cs, decode?_eq_ok_iff.mp hread⟩ h
    | error f => exact ⟨f, rfl⟩

/-- A message gives a number as the place where the fault begins. -/
def Places (message : String) (n : Nat) : Prop :=
  ∃ before behind, message = before ++ " in position " ++ toString n ++ behind ∧
    ∀ c ∈ behind.toList.head?, c.isDigit = false

theorem places_message (f : Fault) : Places f.message f.start := by
  unfold Fault.message
  split
  · refine ⟨"'utf-8' codec can't decode " ++ ("byte 0x" ++ String.ofList (Hex.padded 2 f.byte.toNat)),
      ": " ++ f.flaw.reason, ?_, by simp⟩
    simp only [String.append_assoc]
  · have hwords : "bytes in position " = "bytes" ++ " in position " := rfl
    refine ⟨"'utf-8' codec can't decode " ++ "bytes",
      "-" ++ toString (f.start + f.size - 1) ++ (": " ++ f.flaw.reason), ?_, by simp⟩
    simp only [hwords, String.append_assoc]

/-! ## Reading leniently -/

/-- A flaw behind characters leaves a U+FFFD behind them. -/
theorem mem_decodeLossy_of_flaw {cs : List Char} {b : UInt8} {rest : List UInt8} {flaw : Flaw}
    (h : (front b rest).found = .error flaw) : '\uFFFD' ∈ decodeLossy (encode cs ++ b :: rest) := by
  rw [decodeLossy_encode_append]
  apply List.mem_append_right
  rw [decodeLossy, lenientFrom]
  simp only [h]
  exact List.mem_cons_self

theorem mem_decodeLossy {bytes : List UInt8} (h : ¬ WellFormed bytes) : '\uFFFD' ∈ decodeLossy bytes := by
  cases exists_parts bytes with
  | whole cs => exact absurd ⟨cs, rfl⟩ h
  | flawed cs hflaw => exact mem_decodeLossy_of_flaw hflaw

end Utf8

/-! ## Replies -/

namespace Reply

open Utf8 (WellFormed Longest Places)

/-- What a text on the output stream means, without the blanks around it, next to a complaint and an exit status. -/
def meaning (text complaint : List Char) (status : Option Int) : Answer :=
  if text = [] then .error (.reported (if complaint = [] then .silent else .diagnostic complaint))
  else Envelope.read text >>= fun e => verdict e complaint status

variable {r : Reply}

theorem result_of_encode {cs : List Char} (h : r.stdout = Utf8.encode cs) :
    r.result = meaning (Blank.trim cs) r.complaint r.status := by
  have hdecode : Utf8.decode? r.stdout = .ok cs := Utf8.decode?_eq_ok_iff.mpr h
  unfold meaning
  split
  · rename_i hblank
    exact result_of_saysNothing ⟨cs, hdecode, hblank⟩
  · rename_i htext
    exact result_of_trim hdecode htext

/-- The output stream is refused with the fault that strict reading finds. -/
theorem result_eq_undecodable_iff {f : Utf8.Fault} :
    r.result = .error (.reported (.undecodable f)) ↔ Utf8.decode? r.stdout = .error f := by
  constructor
  · intro h
    cases hdecode : Utf8.decode? r.stdout with
    | error g =>
      simp only [result, hdecode] at h
      cases h
      rfl
    | ok cs =>
      have hmeaning := result_of_encode (Utf8.decode?_eq_ok_iff.mp hdecode)
      rw [h] at hmeaning
      unfold meaning at hmeaning
      split at hmeaning
      · split at hmeaning
        · cases hmeaning
        · cases hmeaning
      · rcases bind_eq_error.mp hmeaning.symm with hread | ⟨e, -, hverdict⟩
        · cases Envelope.kind_of_read hread
        · unfold verdict at hverdict
          split at hverdict
          · cases hverdict
          · cases hverdict
  · intro h
    simp only [result, h]

/-- A stream of bytes is refused as output exactly if it is not well formed, with a message that gives the length of
the longest well-formed part in front as the place. Well-formed bytes are read as their characters, without the blanks
around them, on the output stream and on the error stream. Read leniently, well-formed bytes in front of any others give
their characters in front of what the others give, and bytes that are not well formed leave at least one U+FFFD. -/
theorem streams_agree (bytes : List UInt8) :
    (∀ r : Reply, r.stdout = bytes →
      ((∃ f, r.result = .error (.reported (.undecodable f))) ↔ ¬ WellFormed bytes)) ∧
    (∀ (r : Reply) (f : Utf8.Fault), r.stdout = bytes → r.result = .error (.reported (.undecodable f)) →
      Longest bytes f.start ∧
        ∃ message, (CallError.undecodable f).message = Text.ofString message ∧ Places message f.start) ∧
    (∀ cs, bytes = Utf8.encode cs →
      (∀ r : Reply, r.stdout = bytes → r.result = meaning (Blank.trim cs) r.complaint r.status) ∧
      (∀ r : Reply, r.stderr = bytes → r.complaint = Blank.trim cs) ∧
      ∀ behind, Utf8.decodeLossy (bytes ++ behind) = cs ++ Utf8.decodeLossy behind) ∧
    (¬ WellFormed bytes → '\uFFFD' ∈ Utf8.decodeLossy bytes) := by
  refine ⟨?_, ?_, ?_, Utf8.mem_decodeLossy⟩
  · intro r hr
    subst hr
    rw [← Utf8.exists_fault_iff]
    exact exists_congr fun f => result_eq_undecodable_iff
  · intro r f hr hresult
    subst hr
    obtain ⟨before, behind, hmessage, hbehind⟩ := Utf8.places_message f
    refine ⟨Utf8.start_of_decode? (result_eq_undecodable_iff.mp hresult), _, rfl,
      "Bridge output is not valid UTF-8: " ++ before, behind, ?_, hbehind⟩
    rw [hmessage]
    simp only [String.append_assoc]
  · intro cs hcs
    subst hcs
    refine ⟨fun r hr => result_of_encode hr, fun r hr => ?_, Utf8.decodeLossy_encode_append cs⟩
    rw [complaint, hr, Utf8.decodeLossy_encode]

/-- A form that is too long, a surrogate, a number above U+10FFFF and a cut character are refused; the cut one is named
behind the two bytes in front of it. -/
theorem streams_agree_refused :
    (∀ bytes ∈ [[0xC0, 0xAF], [0xED, 0xA0, 0x80], [0xF4, 0x90, 0x80, 0x80], [0xC3, 0xA9, 0xE2, 0x82]],
      ¬ WellFormed bytes ∧ '\uFFFD' ∈ Utf8.decodeLossy bytes) ∧
    Longest [0xC3, 0xA9, 0xE2, 0x82] 2 ∧
    (Reply.mk [] [0xC3, 0xA9, 0x0A] none).complaint = ['é'] := by
  have hrefused : ∀ bytes ∈ [[0xC0, 0xAF], [0xED, 0xA0, 0x80], [0xF4, 0x90, 0x80, 0x80], [0xC3, 0xA9, 0xE2, 0x82]],
      ∃ f, (Reply.mk bytes [] none).result = .error (.reported (.undecodable f)) := by
    simp only [List.forall_mem_cons, List.not_mem_nil, false_implies, implies_true, and_true]
    exact ⟨⟨_, rfl⟩, ⟨_, rfl⟩, ⟨_, rfl⟩, ⟨_, rfl⟩⟩
  refine ⟨fun bytes hbytes => ?_, ?_, ?_⟩
  · obtain ⟨hiff, -, -, hlenient⟩ := streams_agree bytes
    have hformed := (hiff ⟨bytes, [], none⟩ rfl).mp (hrefused bytes hbytes)
    exact ⟨hformed, hlenient hformed⟩
  · obtain ⟨-, hplace, -⟩ := streams_agree [0xC3, 0xA9, 0xE2, 0x82]
    exact (hplace ⟨_, [], none⟩ ⟨.cutShort, 2, 2, 0xE2⟩ rfl rfl).1
  · obtain ⟨-, -, hread, -⟩ := streams_agree [0xC3, 0xA9, 0x0A]
    exact (hread ['é', '\n'] rfl).2.1 ⟨[], _, none⟩ rfl

end Reply

end AgentBridge
