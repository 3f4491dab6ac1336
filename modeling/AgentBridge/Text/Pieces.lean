/-
  AgentBridge.Text.Pieces — cutting a list at a separator.

  `pieces` cuts at every occurrence of the separator, so there is always one piece more than
  separators, and an empty list is one empty piece. `cutAt?` cuts at the first occurrence
  only. `pieces_of_not_mem` and `pieces_append_cons` say what the pieces are, and the separator
  is in none of them (`not_mem_of_mem_pieces`). `cutAt?_eq_some_iff` and `cutAt?_eq_none_iff`
  say where the first separator is.

  `joinWith` puts a separator between lists again: joining the pieces gives back what was cut
  (`joinWith_pieces`), and lists without the separator are the pieces of what they are joined
  to (`pieces_joinWith`).
-/

namespace AgentBridge

def joinWith {α : Type} (separator : List α) : List (List α) → List α
  | [] => []
  | [piece] => piece
  | piece :: rest => piece ++ separator ++ joinWith separator rest

theorem joinWith_cons_cons {α : Type} (separator piece next : List α)
    (rest : List (List α)) :
    joinWith separator (piece :: next :: rest) =
      piece ++ separator ++ joinWith separator (next :: rest) := rfl

/-- What is joined holds the joined lists and the separators between them. -/
theorem mem_joinWith {α : Type} {separator : List α} {parts : List (List α)} {c : α}
    (h : c ∈ joinWith separator parts) : c ∈ separator ∨ ∃ part ∈ parts, c ∈ part := by
  induction parts with
  | nil => cases h
  | cons part rest ih =>
    cases rest with
    | nil => exact Or.inr ⟨part, by simp, h⟩
    | cons next rest =>
      rw [joinWith_cons_cons, List.append_assoc] at h
      rcases List.mem_append.mp h with h | h
      · exact Or.inr ⟨part, by simp, h⟩
      rcases List.mem_append.mp h with h | h
      · exact Or.inl h
      rcases ih h with h | h
      · exact Or.inl h
      · obtain ⟨p, hp, hc⟩ := h
        exact Or.inr ⟨p, List.mem_cons_of_mem _ hp, hc⟩

variable {α : Type} [DecidableEq α]

def pieces (separator : α) : List α → List (List α)
  | [] => [[]]
  | c :: rest =>
    if c = separator then [] :: pieces separator rest
    else match pieces separator rest with
      | piece :: others => (c :: piece) :: others
      | [] => [[c]]

/-- What stands before and after the first separator. -/
def cutAt? (separator : α) : List α → Option (List α × List α)
  | [] => none
  | c :: rest =>
    if c = separator then some ([], rest)
    else (cutAt? separator rest).map fun (before, after) => (c :: before, after)

/-- What stands before the first separator, or everything, and what stands after it. -/
def cutAt (separator : α) (cs : List α) : List α × List α := (cutAt? separator cs).getD (cs, [])

/-- What stands after the last separator, or everything. -/
def afterLast (separator : α) (cs : List α) : List α :=
  (cs.reverse.takeWhile (· != separator)).reverse

theorem mem_of_mem_afterLast {separator c : α} {cs : List α} (h : c ∈ afterLast separator cs) : c ∈ cs :=
  List.mem_reverse.mp ((List.takeWhile_sublist _).subset (List.mem_reverse.mp h))

theorem pieces_ne_nil (separator : α) (cs : List α) : pieces separator cs ≠ [] := by
  induction cs with
  | nil => simp [pieces]
  | cons c rest ih =>
    unfold pieces
    split
    · simp
    · split <;> simp

theorem pieces_of_not_mem {separator : α} {cs : List α} (h : separator ∉ cs) :
    pieces separator cs = [cs] := by
  induction cs with
  | nil => rfl
  | cons c rest ih =>
    have hc : c ≠ separator := fun e => h (by simp [e])
    have hr : separator ∉ rest := fun e => h (by simp [e])
    simp [pieces, hc, ih hr]

theorem pieces_append_cons {separator : α} {a : List α} (h : separator ∉ a) (b : List α) :
    pieces separator (a ++ separator :: b) = a :: pieces separator b := by
  induction a with
  | nil => simp [pieces]
  | cons c rest ih =>
    have hc : c ≠ separator := fun e => h (by simp [e])
    have hr : separator ∉ rest := fun e => h (by simp [e])
    simp [pieces, hc, ih hr]

/-- The separator is in none of the pieces. -/
theorem not_mem_of_mem_pieces {separator : α} {cs piece : List α} (h : piece ∈ pieces separator cs) :
    separator ∉ piece := by
  induction cs generalizing piece with
  | nil =>
    obtain rfl := List.mem_singleton.mp h
    exact List.not_mem_nil
  | cons c rest ih =>
    obtain ⟨first, others, hrest⟩ := List.exists_cons_of_ne_nil (pieces_ne_nil separator rest)
    by_cases hc : c = separator
    · rw [pieces, if_pos hc, List.mem_cons] at h
      rcases h with rfl | h
      · exact List.not_mem_nil
      · exact ih h
    · rw [pieces, if_neg hc, hrest, List.mem_cons] at h
      rcases h with rfl | h
      · have hfirst : separator ∉ first := ih (by rw [hrest]; exact List.mem_cons_self)
        rw [List.mem_cons, not_or]
        exact ⟨Ne.symm hc, hfirst⟩
      · exact ih (by rw [hrest]; exact List.mem_cons_of_mem _ h)

/-- Lists without the separator are the pieces of what they are joined to. -/
theorem pieces_joinWith {separator : α} {parts : List (List α)} (hne : parts ≠ [])
    (h : ∀ part ∈ parts, separator ∉ part) : pieces separator (joinWith [separator] parts) = parts := by
  induction parts with
  | nil => exact absurd rfl hne
  | cons part rest ih =>
    have hpart : separator ∉ part := h part (by simp)
    cases rest with
    | nil => exact pieces_of_not_mem hpart
    | cons next rest =>
      rw [joinWith_cons_cons, List.append_assoc, List.singleton_append, pieces_append_cons hpart,
        ih (by simp) fun p hp => h p (List.mem_cons_of_mem _ hp)]

theorem cutAt?_eq_none_iff {separator : α} {cs : List α} :
    cutAt? separator cs = none ↔ separator ∉ cs := by
  induction cs with
  | nil => simp [cutAt?]
  | cons c rest ih =>
    by_cases hc : c = separator
    · simp [cutAt?, hc]
    · simp [cutAt?, hc, ih, Ne.symm hc]

theorem cutAt?_append_cons {separator : α} {a : List α} (h : separator ∉ a) (b : List α) :
    cutAt? separator (a ++ separator :: b) = some (a, b) := by
  induction a with
  | nil => simp [cutAt?]
  | cons c rest ih =>
    have hc : c ≠ separator := fun e => h (by simp [e])
    have hr : separator ∉ rest := fun e => h (by simp [e])
    simp [cutAt?, hc, ih hr]

/-- A list is cut where its first separator is. -/
theorem cutAt?_eq_some_iff {separator : α} {cs before after : List α} :
    cutAt? separator cs = some (before, after) ↔
      cs = before ++ separator :: after ∧ separator ∉ before := by
  constructor
  · intro h
    induction cs generalizing before after with
    | nil => cases h
    | cons c rest ih =>
      by_cases hc : c = separator
      · simp only [cutAt?, hc, if_true, Option.some.injEq, Prod.mk.injEq] at h
        obtain ⟨rfl, rfl⟩ := h
        exact ⟨by simp [hc], by simp⟩
      · simp only [cutAt?, hc, if_false, Option.map_eq_some_iff] at h
        obtain ⟨⟨a, b⟩, hab, h⟩ := h
        obtain ⟨hrest, hnot⟩ := ih hab
        cases h
        exact ⟨by simp [hrest], by simp [hnot, Ne.symm hc]⟩
  · intro h
    rw [h.1]
    exact cutAt?_append_cons h.2 after

/-- Nothing stands before the first separator only where there is nothing else in front of it. -/
theorem cutAt_eq_nil_iff {separator : α} {cs : List α} :
    (cutAt separator cs).1 = [] ↔ ∀ c ∈ cs.head?, c = separator := by
  cases cs with
  | nil => simp [cutAt, cutAt?]
  | cons c rest =>
    by_cases hc : c = separator
    · simp [cutAt, cutAt?, hc]
    · cases hcut : cutAt? separator rest with
      | none => simp [cutAt, cutAt?, hc, hcut]
      | some cut => simp [cutAt, cutAt?, hc, hcut]

theorem cutAt_of_not_mem {separator : α} {cs : List α} (h : separator ∉ cs) :
    cutAt separator cs = (cs, []) := by
  rw [cutAt, cutAt?_eq_none_iff.mpr h]
  rfl

theorem cutAt_append_cons {separator : α} {a : List α} (h : separator ∉ a) (b : List α) :
    cutAt separator (a ++ separator :: b) = (a, b) := by
  rw [cutAt, cutAt?_append_cons h]
  rfl

/-- Behind a list without the separator, the cut is where it is by itself. -/
theorem cutAt_append_of_not_mem {separator : α} {a : List α} (h : separator ∉ a)
    (b : List α) : cutAt separator (a ++ b) = (a ++ (cutAt separator b).1, (cutAt separator b).2) := by
  cases hcut : cutAt? separator b with
  | none =>
    have hb : separator ∉ b := cutAt?_eq_none_iff.mp hcut
    rw [cutAt_of_not_mem hb, cutAt_of_not_mem]
    intro hmem
    rcases List.mem_append.mp hmem with hmem | hmem
    · exact h hmem
    · exact hb hmem
  | some cut =>
    obtain ⟨before, after⟩ := cut
    obtain ⟨hb, hnot⟩ := cutAt?_eq_some_iff.mp hcut
    have hfront : separator ∉ a ++ before := by
      intro hmem
      rcases List.mem_append.mp hmem with hmem | hmem
      · exact h hmem
      · exact hnot hmem
    rw [hb, cutAt_append_cons hnot, ← List.append_assoc, cutAt_append_cons hfront]

/-- The pieces and the separators between them are the whole list. -/
theorem joinWith_pieces (separator : α) (cs : List α) :
    joinWith [separator] (pieces separator cs) = cs := by
  induction cs with
  | nil => rfl
  | cons c rest ih =>
    obtain ⟨piece, others, h⟩ := List.exists_cons_of_ne_nil (pieces_ne_nil separator rest)
    rw [h] at ih
    by_cases hc : c = separator
    · rw [pieces, if_pos hc, h, joinWith_cons_cons, ih, hc]
      rfl
    · rw [pieces, if_neg hc, h]
      cases others with
      | nil => rw [← ih]; rfl
      | cons next others =>
        rw [joinWith_cons_cons] at ih ⊢
        rw [← ih]
        rfl

end AgentBridge
