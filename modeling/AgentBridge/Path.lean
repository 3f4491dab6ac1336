import AgentBridge.Text
import AgentBridge.Text.Pieces

/-
  AgentBridge.Path — the normal form of paths.

  A path is cut at its slashes. Empty parts and parts that stand for the same place are left
  out, those that lead one place up are kept. Of the slashes at the front two stay two, and
  any other number is one. A path of which nothing is left is the place itself. The normal form
  of a path has the same parts, so it is its own normal form (`normal_normal`).
-/

namespace AgentBridge.Path

def slash : CodePoint := .char '/'

def here : Text := [.char '.']

def above : Text := [.char '.', .char '.']

/-- The slashes at the front that are kept. -/
def root (t : Text) : Text :=
  match (t.takeWhile (· == slash)).length with
  | 0 => []
  | 2 => [slash, slash]
  | _ => [slash]

/-- The parts of a path that lead somewhere else. -/
def parts (t : Text) : List Text := (pieces slash t).filter fun p => p != [] && p != here

def normal (t : Text) : Text :=
  match root t ++ joinWith [slash] (parts t) with
  | [] => here
  | path => path

/-! ## Normal forms -/

/-- What stands between the slashes of a path and leads somewhere else. -/
structure IsPart (part : Text) : Prop where
  ne_nil : part ≠ []
  ne_here : part ≠ here
  no_slash : slash ∉ part

theorem isPart_of_mem {t part : Text} (h : part ∈ parts t) : IsPart part := by
  obtain ⟨hpiece, hkept⟩ := List.mem_filter.mp h
  rw [Bool.and_eq_true, bne_iff_ne, bne_iff_ne] at hkept
  exact ⟨hkept.1, hkept.2, not_mem_of_mem_pieces hpiece⟩

/-- Parts with slashes between them are the parts of what they are joined to. -/
theorem parts_joinWith {ps : List Text} (h : ∀ part ∈ ps, IsPart part) : parts (joinWith [slash] ps) = ps := by
  cases ps with
  | nil => rfl
  | cons first rest =>
    rw [parts, pieces_joinWith (List.cons_ne_nil first rest) fun part hpart => (h part hpart).no_slash,
      List.filter_eq_self]
    intro part hpart
    rw [Bool.and_eq_true, bne_iff_ne, bne_iff_ne]
    exact ⟨(h part hpart).ne_nil, (h part hpart).ne_here⟩

theorem parts_slash_cons (t : Text) : parts (slash :: t) = parts t := by
  rw [parts, pieces, if_pos rfl, List.filter_cons]
  rfl

/-- Joined parts do not begin with a slash. -/
theorem head_joinWith {ps : List Text} (h : ∀ part ∈ ps, IsPart part) :
    (joinWith [slash] ps).head? ≠ some slash := by
  cases ps with
  | nil => exact nofun
  | cons first rest =>
    have hfirst := h first List.mem_cons_self
    obtain ⟨c, tail, rfl⟩ := List.exists_cons_of_ne_nil hfirst.ne_nil
    have hc : c ≠ slash := fun heq => hfirst.no_slash (heq ▸ List.mem_cons_self)
    cases rest with
    | nil => simpa [joinWith] using hc
    | cons next rest => simpa [joinWith] using hc

/-- Slashes that are kept once are kept again, and they are in none of the parts. -/
theorem root_append (t : Text) {u : Text} (h : u.head? ≠ some slash) :
    root (root t ++ u) = root t ∧ parts (root t ++ u) = parts u := by
  have hnone : u.takeWhile (· == slash) = [] := by
    cases u with
    | nil => rfl
    | cons c rest =>
      have hc : c ≠ slash := fun heq => h (heq ▸ rfl)
      simp [hc]
  have hroot : root t = [] ∨ root t = [slash, slash] ∨ root t = [slash] := by
    unfold root
    split
    · exact Or.inl rfl
    · exact Or.inr (Or.inl rfl)
    · exact Or.inr (Or.inr rfl)
  rcases hroot with hroot | hroot | hroot
  · rw [hroot]
    exact ⟨by simp [root, hnone], rfl⟩
  · rw [hroot]
    exact ⟨by simp [root, hnone], by simp only [List.cons_append, List.nil_append, parts_slash_cons]⟩
  · rw [hroot]
    exact ⟨by simp [root, hnone], by simp only [List.cons_append, List.nil_append, parts_slash_cons]⟩

theorem normal_eq (t : Text) :
    normal t = if root t ++ joinWith [slash] (parts t) = [] then here else root t ++ joinWith [slash] (parts t) := by
  unfold normal
  split
  · rename_i hnil
    rw [if_pos hnil]
  · rename_i hne
    rw [if_neg hne]

/-- A normal form is its own normal form. -/
theorem normal_normal (t : Text) : normal (normal t) = normal t := by
  have hparts : ∀ part ∈ parts t, IsPart part := fun _ => isPart_of_mem
  obtain ⟨hroot, hrest⟩ := root_append t (head_joinWith hparts)
  rw [parts_joinWith hparts] at hrest
  rw [normal_eq t]
  split
  · rfl
  · rename_i hne
    rw [normal_eq, hroot, hrest, if_neg hne]

end AgentBridge.Path
