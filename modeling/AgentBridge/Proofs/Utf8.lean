import AgentBridge.Proofs.Outcome
import AgentBridge.Text.Utf8
import Mathlib.Data.List.Basic

/-
  AgentBridge.Proofs.Utf8 — strict reading undoes writing.

  `front` finds a character exactly where the bytes that encode it stand (`front_encode`,
  `encode_front`). From this follow the statements about whole byte strings: strict reading
  accepts what writing produces and nothing else (`decode?_eq_ok_iff`), and where a byte
  string and an extension of it are both well formed, the extension encodes characters of
  its own (`decode?_append`), so no character is ever cut by such an end. Lenient reading gives
  the same characters in front of whatever follows them (`decodeLossy_encode_append`).
-/

namespace AgentBridge.Utf8

/-! ## One character -/

/-- The number that following bytes give, added six bits at a time to the bits of the first. -/
def gather (bits : Nat) (tail : List UInt8) : Nat :=
  tail.foldl (fun n b => n * 0x40 + (b.toNat - 0x80)) bits

/-- What `following` took when it found a character: exactly `more` bytes, all in their range. -/
theorem following_ok {more least greatest bits taken : Nat} {bs : List UInt8} {c : Char}
    (h : (following more least greatest bits taken bs).found = .ok c) :
    ∃ tail rest, bs = tail ++ rest ∧ tail.length = more ∧ c = Char.ofNat (gather bits tail) ∧
      (following more least greatest bits taken bs).size = taken + more ∧
      (∀ b ∈ tail.head?, least ≤ b.toNat ∧ b.toNat ≤ greatest) ∧
      ∀ b ∈ tail.tail, 0x80 ≤ b.toNat ∧ b.toNat ≤ 0xBF := by
  induction bs generalizing more least greatest bits taken with
  | nil =>
    cases more with
    | zero => exact ⟨[], [], rfl, rfl, by simpa [following, gather] using h.symm, rfl, by simp, by simp⟩
    | succ more => simp [following] at h
  | cons b rest ih =>
    cases more with
    | zero => exact ⟨[], b :: rest, rfl, rfl, by simpa [following, gather] using h.symm, rfl, by simp, by simp⟩
    | succ more =>
      simp only [following] at h ⊢
      split at h
      · rename_i hb
        rw [if_pos hb]
        obtain ⟨tail, rest', rfl, hl, hc, hs, hhead, htail⟩ := ih h
        refine ⟨b :: tail, rest', rfl, by simp [hl], by simpa [gather] using hc, by omega, by simpa using hb, ?_⟩
        intro x hx
        cases tail with
        | nil => cases hx
        | cons y tail =>
          rcases List.mem_cons.mp hx with rfl | hx
          · exact hhead _ rfl
          · exact htail x hx
      · cases h

theorem toNat_ofNat_of_valid {n : Nat} (h : n.isValidChar) : (Char.ofNat n).val.toNat = n := by
  rw [Char.ofNat, dif_pos h]
  rfl

theorem eq_ofNat {b : UInt8} {n : Nat} (h : b.toNat = n) : b = UInt8.ofNat n := by
  subst h; simp


theorem encode_two {n : Nat} {a b : UInt8} (h : 0x80 ≤ n) (h' : n < 0x800) (ha : a.toNat = n / 0x40 + 0xC0)
    (hb : b.toNat = n % 0x40 + 0x80) : String.utf8EncodeChar (Char.ofNat n) = [a, b] := by
  have hv : n.isValidChar := Or.inl (by omega)
  simp only [String.utf8EncodeChar, toNat_ofNat_of_valid hv]
  rw [if_neg (by omega), if_pos (by omega), eq_ofNat ha, eq_ofNat hb, Nat.mod_eq_of_lt (a := n / 64) (by omega)]

theorem encode_three {n : Nat} {a b c : UInt8} (h : 0x800 ≤ n) (h' : n < 0xD800 ∨ 0xDFFF < n ∧ n < 0x10000)
    (ha : a.toNat = n / 0x1000 + 0xE0) (hb : b.toNat = n / 0x40 % 0x40 + 0x80) (hc : c.toNat = n % 0x40 + 0x80) :
    String.utf8EncodeChar (Char.ofNat n) = [a, b, c] := by
  have hv : n.isValidChar := by unfold Nat.isValidChar; omega
  simp only [String.utf8EncodeChar, toNat_ofNat_of_valid hv]
  rw [if_neg (by omega), if_neg (by omega), if_pos (by omega), eq_ofNat ha, eq_ofNat hb, eq_ofNat hc,
    Nat.mod_eq_of_lt (a := n / 4096) (by omega)]

theorem encode_four {n : Nat} {a b c d : UInt8} (h : 0x10000 ≤ n) (h' : n < 0x110000)
    (ha : a.toNat = n / 0x40000 + 0xF0) (hb : b.toNat = n / 0x1000 % 0x40 + 0x80)
    (hc : c.toNat = n / 0x40 % 0x40 + 0x80) (hd : d.toNat = n % 0x40 + 0x80) :
    String.utf8EncodeChar (Char.ofNat n) = [a, b, c, d] := by
  have hv : n.isValidChar := Or.inr ⟨by omega, by omega⟩
  simp only [String.utf8EncodeChar, toNat_ofNat_of_valid hv]
  rw [if_neg (by omega), if_neg (by omega), if_neg (by omega), eq_ofNat ha, eq_ofNat hb, eq_ofNat hc, eq_ofNat hd,
    Nat.mod_eq_of_lt (a := n / 262144) (by omega)]

/-- The bytes that may stand behind a first byte: as many as it promises, in their ranges. -/
def Lead.Tail (l : Lead) (tail : List UInt8) : Prop :=
  tail.length = l.more ∧ (∀ b ∈ tail.head?, l.least ≤ b.toNat ∧ b.toNat ≤ l.greatest) ∧
    ∀ b ∈ tail.tail, 0x80 ≤ b.toNat ∧ b.toNat ≤ 0xBF

theorem lead_cases {b : Nat} {l : Lead} (h : lead? b = some l) :
    (l.more = 1 ∧ 0xC2 ≤ b ∧ b ≤ 0xDF ∧ l.bits = b - 0xC0 ∧ l.least = 0x80 ∧ l.greatest = 0xBF) ∨
    (l.more = 2 ∧ 0xE0 ≤ b ∧ b ≤ 0xEF ∧ l.bits = b - 0xE0 ∧ l.least = (if b = 0xE0 then 0xA0 else 0x80) ∧
      l.greatest = (if b = 0xED then 0x9F else 0xBF)) ∨
    (l.more = 3 ∧ 0xF0 ≤ b ∧ b ≤ 0xF4 ∧ l.bits = b - 0xF0 ∧ l.least = (if b = 0xF0 then 0x90 else 0x80) ∧
      l.greatest = (if b = 0xF4 then 0x8F else 0xBF)) := by
  unfold lead? at h
  repeat' split at h
  all_goals (simp only [Option.some.injEq, reduceCtorEq] at h; try subst h)
  · exact Or.inl ⟨rfl, by omega, by omega, rfl, rfl, rfl⟩
  · right; left; grind
  · right; left; grind
  · right; left; grind
  · right; right; grind
  · right; right; grind
  · right; right; grind

theorem encode_gather {b : UInt8} {l : Lead} (hl : lead? b.toNat = some l) {tail : List UInt8} (h : l.Tail tail) :
    String.utf8EncodeChar (Char.ofNat (gather l.bits tail)) = b :: tail := by
  obtain ⟨hlen, hhead, htail⟩ := h
  rcases lead_cases hl with ⟨hm, h1, h2, hbits, h3, h4⟩ | ⟨hm, h1, h2, hbits, h3, h4⟩ | ⟨hm, h1, h2, hbits, h3, h4⟩
  · obtain ⟨x, rfl⟩ := List.length_eq_one_iff.mp (hlen.trans hm)
    have hx := hhead x rfl
    simp only [gather, List.foldl]
    exact encode_two (by omega) (by omega) (by omega) (by omega)
  · obtain ⟨x, y, rfl⟩ := List.length_eq_two.mp (hlen.trans hm)
    have hx := hhead x rfl
    have hy := htail y (by simp)
    simp only [gather, List.foldl]
    split at h3 <;> split at h4 <;> exact encode_three (by omega) (by omega) (by omega) (by omega) (by omega)
  · obtain ⟨x, y, z, rfl⟩ := List.length_eq_three.mp (hlen.trans hm)
    have hx := hhead x rfl
    have hy := htail y (by simp)
    have hz := htail z (by simp)
    simp only [gather, List.foldl]
    split at h3 <;> split at h4 <;>
      exact encode_four (by omega) (by omega) (by omega) (by omega) (by omega) (by omega)

/-- The bytes that `front` takes for a character are the ones that encode it. -/
theorem encode_front {b : UInt8} {rest : List UInt8} {c : Char} (h : (front b rest).found = .ok c) :
    ∃ tail rest', rest = tail ++ rest' ∧ (front b rest).size = tail.length + 1 ∧
      String.utf8EncodeChar c = b :: tail := by
  have hb := b.toNat_lt
  unfold front at h ⊢
  split at h
  · rename_i h7
    rw [if_pos h7]
    refine ⟨[], rest, rfl, rfl, ?_⟩
    simp only [Except.ok.injEq] at h
    subst h
    have hv : b.toNat.isValidChar := Or.inl (by omega)
    simp only [String.utf8EncodeChar, toNat_ofNat_of_valid hv]
    rw [if_pos (by omega), ← eq_ofNat rfl]
  · rename_i h7
    rw [if_neg h7]
    cases hl : lead? b.toNat with
    | none => simp [hl] at h
    | some l =>
      simp only [hl] at h ⊢
      obtain ⟨tail, rest', rfl, hlen, rfl, hsize, hhead, htail⟩ := following_ok h
      refine ⟨tail, rest', rfl, by omega, ?_⟩
      exact (encode_gather hl ⟨by assumption, hhead, htail⟩)

/-! ## Reading strictly -/

/-- Bytes that are dealt with are passed over. -/
theorem strictFrom_skip (done rest : List UInt8) (pos : Nat) :
    strictFrom done.length pos (done ++ rest) = strictFrom 0 (pos + done.length) rest := by
  induction done generalizing pos with
  | nil => rfl
  | cons b done ih => simp only [List.length_cons, List.cons_append, strictFrom, ih]; congr 1; omega

theorem lead_of_range {b : Nat} (h : 0xC2 ≤ b) (h' : b ≤ 0xF4) : ∃ l, lead? b = some l := by
  unfold lead?
  repeat' split
  all_goals first | exact ⟨_, rfl⟩ | omega

theorem following_tail {more least greatest bits taken : Nat} {tail : List UInt8} (rest : List UInt8)
    (hl : tail.length = more) (hhead : ∀ b ∈ tail.head?, least ≤ b.toNat ∧ b.toNat ≤ greatest)
    (htail : ∀ b ∈ tail.tail, 0x80 ≤ b.toNat ∧ b.toNat ≤ 0xBF) :
    following more least greatest bits taken (tail ++ rest) =
      ⟨.ok (Char.ofNat (gather bits tail)), taken + more⟩ := by
  induction tail generalizing more least greatest bits taken with
  | nil => subst hl; cases rest <;> rfl
  | cons b tail ih =>
    subst hl
    simp only [List.length_cons, List.cons_append, following]
    rw [if_pos (hhead b rfl), ih rfl (fun x hx => htail x (List.mem_of_mem_head? hx))
      fun x hx => htail x (List.mem_of_mem_tail hx)]
    simp only [gather, List.foldl]
    congr 1
    omega

/-- A first byte promises the bytes behind it, and together they stand for `n`. -/
def Promises (b : UInt8) (tail : List UInt8) (n : Nat) : Prop :=
  ∃ l, lead? b.toNat = some l ∧ l.Tail tail ∧ gather l.bits tail = n

theorem promises_two {n : Nat} {b x : UInt8} (h : 0x80 ≤ n) (h' : n < 0x800) (hb : b.toNat = n / 0x40 % 0x20 + 0xC0)
    (hx : x.toNat = n % 0x40 + 0x80) : Promises b [x] n := by
  obtain ⟨l, hl⟩ := lead_of_range (b := b.toNat) (by omega) (by omega)
  have hcase := lead_cases hl
  refine ⟨l, hl, ⟨by simp only [List.length_singleton]; omega, ?_, by simp⟩, ?_⟩
  · intro y hy
    cases hy
    omega
  · simp only [gather, List.foldl]
    omega

theorem promises_three {n : Nat} {b x y : UInt8} (h : 0x800 ≤ n) (h' : n < 0xD800 ∨ 0xDFFF < n ∧ n < 0x10000)
    (hb : b.toNat = n / 0x1000 % 0x10 + 0xE0) (hx : x.toNat = n / 0x40 % 0x40 + 0x80)
    (hy : y.toNat = n % 0x40 + 0x80) : Promises b [x, y] n := by
  obtain ⟨l, hl⟩ := lead_of_range (b := b.toNat) (by omega) (by omega)
  rcases lead_cases hl with hcase | hcase | hcase
  · omega
  · obtain ⟨hm, h1, h2, hbits, h3, h4⟩ := hcase
    refine ⟨l, hl, ⟨hm.symm, ?_, ?_⟩, ?_⟩
    · intro z hz
      cases hz
      split at h3 <;> split at h4 <;> omega
    · simp only [List.tail_cons, List.mem_singleton, forall_eq]
      omega
    · simp only [gather, List.foldl]
      omega
  · omega

theorem promises_four {n : Nat} {b x y z : UInt8} (h : 0x10000 ≤ n) (h' : n < 0x110000)
    (hb : b.toNat = n / 0x40000 % 8 + 0xF0) (hx : x.toNat = n / 0x1000 % 0x40 + 0x80)
    (hy : y.toNat = n / 0x40 % 0x40 + 0x80) (hz : z.toNat = n % 0x40 + 0x80) : Promises b [x, y, z] n := by
  obtain ⟨l, hl⟩ := lead_of_range (b := b.toNat) (by omega) (by omega)
  rcases lead_cases hl with hcase | hcase | hcase
  · omega
  · omega
  · obtain ⟨hm, h1, h2, hbits, h3, h4⟩ := hcase
    refine ⟨l, hl, ⟨hm.symm, ?_, ?_⟩, ?_⟩
    · intro w hw
      cases hw
      split at h3 <;> split at h4 <;> omega
    · simp only [List.tail_cons, List.mem_cons, List.not_mem_nil, or_false, forall_eq_or_imp, forall_eq]
      omega
    · simp only [gather, List.foldl]
      omega

theorem front_of_promises {b : UInt8} {tail : List UInt8} {n : Nat} (h : Promises b tail n) (rest : List UInt8) :
    front b (tail ++ rest) = ⟨.ok (Char.ofNat n), tail.length + 1⟩ := by
  obtain ⟨l, hl, htail, hn⟩ := h
  have h7 : ¬ b.toNat < 0x80 := by rcases lead_cases hl with h | h | h <;> omega
  unfold front
  rw [if_neg h7, hl]
  simp only
  rw [following_tail rest htail.1 htail.2.1 htail.2.2, htail.1, hn, Nat.add_comm]

/-- In front of any bytes, the bytes that encode a character are read as that character. -/
theorem front_encode {c : Char} {b : UInt8} {tail : List UInt8} (h : String.utf8EncodeChar c = b :: tail)
    (rest : List UInt8) : front b (tail ++ rest) = ⟨.ok c, tail.length + 1⟩ := by
  have hv : c.val.toNat < 0xD800 ∨ 0xDFFF < c.val.toNat ∧ c.val.toNat < 0x110000 := c.valid
  have hc : Char.ofNat c.val.toNat = c := Char.ofNat_toNat c
  unfold String.utf8EncodeChar at h
  generalize c.val.toNat = n at *
  simp only at h
  subst hc
  have hmod : ∀ k, k < 0x100 → (UInt8.ofNat k).toNat = k := fun k hk => by simp [Nat.mod_eq_of_lt hk]
  split at h
  · obtain ⟨rfl, rfl⟩ := List.cons.inj h
    unfold front
    rw [hmod n (by omega), if_pos (by omega)]
    rfl
  split at h
  · obtain ⟨rfl, rfl⟩ := List.cons.inj h
    exact front_of_promises (promises_two (by omega) (by omega) (hmod _ (by omega)) (hmod _ (by omega))) rest
  split at h
  · obtain ⟨rfl, rfl⟩ := List.cons.inj h
    exact front_of_promises (promises_three (by omega) (by omega) (hmod _ (by omega)) (hmod _ (by omega))
      (hmod _ (by omega))) rest
  · obtain ⟨rfl, rfl⟩ := List.cons.inj h
    exact front_of_promises (promises_four (by omega) (by omega) (hmod _ (by omega)) (hmod _ (by omega))
      (hmod _ (by omega)) (hmod _ (by omega))) rest

theorem encode_cons (c : Char) (cs : List Char) : encode (c :: cs) = String.utf8EncodeChar c ++ encode cs := rfl

theorem encode_append (a b : List Char) : encode (a ++ b) = encode a ++ encode b := List.flatMap_append

/-- Characters in front of any bytes are read as those characters. -/
theorem strictFrom_encode_append (cs : List Char) (pos : Nat) (s : List UInt8) :
    strictFrom 0 pos (encode cs ++ s) = (strictFrom 0 (pos + (encode cs).length) s).map (cs ++ ·) := by
  induction cs generalizing pos with
  | nil =>
    show strictFrom 0 pos s = (strictFrom 0 pos s).map fun x => x
    cases strictFrom 0 pos s <;> rfl
  | cons c cs ih =>
    obtain ⟨b, tail, h⟩ := List.exists_cons_of_ne_nil (String.utf8EncodeChar_ne_nil (c := c))
    rw [encode_cons, h, List.append_assoc, List.cons_append]
    simp only [strictFrom, front_encode h]
    rw [Nat.add_sub_cancel, strictFrom_skip, ih]
    have hp : pos + 1 + tail.length + (encode cs).length = pos + (b :: tail ++ encode cs).length := by
      simp only [List.length_append, List.length_cons]; omega
    rw [hp]
    cases strictFrom 0 (pos + (b :: tail ++ encode cs).length) s <;> rfl

/-- Whatever is read strictly was written as what it was read as. -/
theorem strictFrom_ok {bytes : List UInt8} {pos : Nat} {cs : List Char} (h : strictFrom 0 pos bytes = .ok cs) :
    bytes = encode cs := by
  induction hn : bytes.length using Nat.strongRecOn generalizing bytes pos cs with
  | ind n ih =>
    cases bytes with
    | nil => obtain rfl : cs = [] := by simpa [strictFrom] using h.symm
             rfl
    | cons b rest =>
      simp only [strictFrom] at h
      cases hf : (front b rest).found with
      | error flaw => simp [hf] at h
      | ok c =>
        obtain ⟨tail, rest', rfl, hs, he⟩ := encode_front hf
        simp only [hf, hs, Nat.add_sub_cancel, strictFrom_skip] at h
        obtain ⟨cs', hr, rfl⟩ := map_eq_ok.mp h
        have := ih rest'.length (by rw [← hn, List.length_cons, List.length_append]; omega) hr rfl
        rw [encode_cons, he, ← this, List.cons_append]

/-- Strict reading accepts exactly what writing produces. -/
theorem decode?_eq_ok_iff {bytes : List UInt8} {cs : List Char} : decode? bytes = .ok cs ↔ bytes = encode cs := by
  constructor
  · exact strictFrom_ok
  · rintro rfl
    have := strictFrom_encode_append cs 0 []
    simpa [decode?, strictFrom, Except.map] using this

theorem encode_injective {a b : List Char} (h : encode a = encode b) : a = b :=
  Except.ok.inj ((decode?_eq_ok_iff.mpr rfl).symm.trans (decode?_eq_ok_iff.mpr h))

/-- Where a byte string and an extension of it are both well formed, so is what extends it. -/
theorem decode?_append {b s : List UInt8} {cs all : List Char} (hb : decode? b = .ok cs)
    (h : decode? (b ++ s) = .ok all) : ∃ more, s = encode more ∧ all = cs ++ more := by
  obtain rfl := decode?_eq_ok_iff.mp hb
  rw [decode?, strictFrom_encode_append] at h
  obtain ⟨more, hs, rfl⟩ := map_eq_ok.mp h
  exact ⟨more, strictFrom_ok hs, rfl⟩

theorem lenientFrom_skip (done rest : List UInt8) : lenientFrom done.length (done ++ rest) = lenientFrom 0 rest := by
  induction done with
  | nil => rfl
  | cons b done ih => simpa only [List.length_cons, List.cons_append, lenientFrom] using ih

/-- Lenient reading gives the characters that stand in front of any bytes. -/
theorem decodeLossy_encode_append (cs : List Char) (s : List UInt8) :
    decodeLossy (encode cs ++ s) = cs ++ decodeLossy s := by
  unfold decodeLossy
  induction cs with
  | nil => rfl
  | cons c cs ih =>
    obtain ⟨b, tail, h⟩ := List.exists_cons_of_ne_nil (String.utf8EncodeChar_ne_nil (c := c))
    rw [encode_cons, h, List.append_assoc, List.cons_append]
    simp only [lenientFrom, front_encode h]
    rw [Nat.add_sub_cancel, lenientFrom_skip, ih, List.cons_append]

/-- Lenient reading changes nothing where there is no flaw. -/
theorem decodeLossy_encode (cs : List Char) : decodeLossy (encode cs) = cs := by
  have h := decodeLossy_encode_append cs []
  rwa [List.append_nil, show decodeLossy [] = [] from rfl, List.append_nil] at h

end AgentBridge.Utf8
